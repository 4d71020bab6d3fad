import Cindral.Github.Adoption
import Cindral.Base.Cleanup
import Cindral.Base.Outcome

/-!
# What a pass may touch

A pass changes a hook only of a repository that it was told to adopt and only after it has read all
its hooks, and it answers well only after every such repository has its hook.
-/

namespace Cindral.Github.Adoption
open Base Script
open Routing (isRepositorySlug invalidRefFragments)

/-- What GitHub has told a pass, and what the pass has done. -/
structure Heard where
  entries : List Fields := []
  /-- The hooks of a repository in the pages that were read, how many these are, and whether they
  are all. -/
  seen : String → List Fields := fun _ => []
  pages : String → Nat := fun _ => 0
  whole : String → Bool := fun _ => false
  /-- The repositories a hook of which was set up, and whether GitHub said so. -/
  wrote : List (String × Bool) := []
  complaints : List String := []

def Heard.record (g : Heard) : (c : Call) → Except Raised (Ans c) → Heard
  | .repositoryPage _, .ok (.ok payload) => { g with entries := g.entries ++ (mappings payload).getD [] }
  | .hookPage repository page, .ok (.ok payload) =>
    match mappings payload with
    | some found =>
      { g with seen := Function.update g.seen repository (g.seen repository ++ found),
               pages := Function.update g.pages repository page,
               whole := Function.update g.whole repository (found.length < 100) }
    | none => g
  | .createHook repository _, r =>
      { g with wrote := g.wrote ++ [(repository, match r with | .ok (.ok _) => true | _ => false)] }
  | .updateHook repository _ _, r =>
      { g with wrote := g.wrote ++ [(repository, match r with | .ok (.ok _) => true | _ => false)] }
  | .printError line, .ok _ => { g with complaints := g.complaints ++ [line] }
  | _, _ => g

structure Adoptable (args : Args) (exclusions allowlist : List String)
    (item : DiscoveredRepository) : Prop where
  named : args.allOwned = true ∨ lower item.repository ∈ allowlist
  foreign : lower item.repository ≠ lower (ops args)
  included : lower item.repository ∉ exclusions
  isPrivate : item.isPrivate = true
  active : item.archived = false
  branch : item.defaultBranch ≠ ""
  trusted : ∀ fragment ∈ invalidRefFragments, hasInfix item.defaultBranch fragment = false

section
variable (args : Args) (exclusions allowlist : List String) (url secret : String)

/-- The hooks of this repository are the pass's to set up. -/
structure Heard.Open (g : Heard) (repository : String) : Prop where
  applies : args.apply = true
  told : ∃ entry ∈ g.entries, ∃ item, listed entry = .ok item ∧ item.repository = repository ∧
    Adoptable args exclusions allowlist item
  first : ∀ deed ∈ g.wrote, deed.1 ≠ repository

def Heard.may (g : Heard) : Call → Prop
  | .repositoryPage _ => g.wrote = []
  | .contents .. => args.apply = false
  | .hookPage repository page => g.Open args exclusions allowlist repository ∧
      page = g.pages repository + 1 ∧ g.whole repository = false
  | .createHook repository payload => g.Open args exclusions allowlist repository ∧
      payload = hookPayload url secret ∧
      g.whole repository = true ∧ ∀ hook ∈ g.seen repository, hookUrl hook ≠ some url
  | .updateHook repository id payload => g.Open args exclusions allowlist repository ∧
      payload = hookPayload url secret ∧
      g.whole repository = true ∧ ∃ hook ∈ g.seen repository, hookUrl hook = some url ∧
      getOr hook "id" .null = id
  | .print _ | .printError _ => True

def careful : Protocol Call Ans Raised Heard where
  may := Heard.may args exclusions allowlist url secret
  note := Heard.record

end

/-- GitHub listed this repository, and no other of its name. -/
def Heard.Told (g : Heard) (item : DiscoveredRepository) : Prop :=
  (∃ entry ∈ g.entries, listed entry = .ok item) ∧ ∀ entry ∈ g.entries, ∀ other,
    listed entry = .ok other →
    lower other.repository = lower item.repository → other = item

/-- The hook of a repository is set up, or the pass said why not and answers that it failed. -/
def Heard.Settled (g : Heard) (answer : Bool) (repository : String) : Prop :=
  (repository, true) ∈ g.wrote ∨ answer = false ∧ ∃ text : String, s!"  {repository}: {text}" ∈
  g.complaints

/-- The pass learnt of no repository, and said so. -/
def Heard.Undiscovered (g : Heard) (answer : Bool) : Prop :=
  answer = false ∧ ∃ message : String, s!"Repository discovery failed: {message}" ∈ g.complaints

/-- What the answer of a pass stands for. -/
structure Adopted (args : Args) (exclusions allowlist : List String) (g : Heard)
    (r : Except Raised Bool) : Prop where
  idle : args.apply = false → g.wrote = []
  settled : ∀ answer, r = .ok answer → args.apply = true → g.Undiscovered answer ∨
    ∀ item, g.Told item → Adoptable args exclusions allowlist item → g.Settled answer item.repository
  complete : r = .ok true → args.apply = true → args.allOwned = false → ∀ slug ∈ allowlist, ∃ repository,
    lower repository = slug ∧ (repository, true) ∈ g.wrote

/-! ## Discovery -/

/-- What is known once these entries were listed and nothing else was done. -/
def Heard.of (entries : List Fields) : Heard := { entries }

section
variable {args : Args} {exclusions allowlist : List String} {url secret : String} {g : Heard}
    {entries : List Fields}

theorem listRepositoryPage_follows {page : Nat} :
    (listRepositoryPage page).Follows (careful args exclusions allowlist url secret)
    (fun g r => (∃ all, g = .of all) ∧ ∀ found, r = .ok found → g = .of (entries ++ found))
    (.of entries) := by
  unfold listRepositoryPage
  have may : (careful args exclusions allowlist url secret).may (.of entries)
    (.repositoryPage page) := rfl
  apply follows_seq
  apply follows_call may
  intro answer
  cases answer with
  | error e => exact ⟨⟨entries, rfl⟩, fun found same => by cases same⟩
  | ok answer =>
    cases answer with
    | error failed => exact ⟨⟨entries, rfl⟩, fun found same => by cases same⟩
    | ok payload =>
      simp only
      cases read : mappings payload with
      | none => exact ⟨⟨_, rfl⟩, fun found same => by cases same⟩
      | some found =>
        refine ⟨⟨_, rfl⟩, fun found' same => ?_⟩
        obtain rfl := Except.ok.inj same
        change Heard.of (entries ++ (mappings payload).getD []) = _
        rw [read]
        rfl

/-- Calls that change nothing of what was heard. -/
def idle (args : Args) : Call → Prop
  | .contents .. => args.apply = false
  | .print _ => True
  | _ => False

theorem idle_follows {α : Type} {s : Exec α} {post : Heard → Except Raised α → Prop}
    (only : s.Only (idle args)) (ended : ∀ r, post g r) :
    s.Follows (careful args exclusions allowlist url secret) post g := by
  refine follows_of_only (fun c free => ?_) only ended
  cases c with
  | contents => exact ⟨free, fun r => by cases r <;> rfl⟩
  | print => exact ⟨trivial, fun r => rfl⟩
  | _ => exact free.elim

theorem contents_idle (unapplied : args.apply = false) (repository path : String) :
    (contents repository path).Only (idle args) := by
  refine only_bind (only_call unapplied) fun answer => ?_
  split <;> trivial

theorem repositoryOf_idle (unapplied : args.apply = false) (entry : Fields) :
    (repositoryOf true entry).Only (idle args) := by
  refine only_bind (only_lift _) fun found => ?_
  refine only_bind (only_bind (contents_idle unapplied _ _) fun answer => ?_) fun hasContract => ?_
  · split <;> trivial
  · refine only_bind (only_bind (contents_idle unapplied _ _) fun answer => ?_) fun hasWorkflows =>
      trivial
    split <;> trivial

/-- What a listing is: the entries that were told, each as it reads. -/
def Lists (args : Args) (entries : List Fields) (items : List DiscoveredRepository) : Prop :=
  args.apply = true → List.Forall₂ (fun entry item => listed entry = .ok item) entries items

theorem repositoryOf_follows (entry : Fields) :
    (repositoryOf (!args.apply) entry).Follows (careful args exclusions allowlist url secret)
    (fun g' r => g' = g ∧ ∀ item, r = .ok item → args.apply = true → listed entry = .ok item) g := by
  cases applies : args.apply with
  | true =>
    apply follows_seq
    apply follows_lift
    cases listed entry with
    | error e => exact ⟨rfl, fun item same => by cases same⟩
    | ok found => exact ⟨rfl, fun item same _ => same⟩
  | false =>
    have kept : (repositoryOf true entry).Follows (careful args exclusions allowlist url secret)
        (fun g' _ => g' = g) g :=
      idle_follows (repositoryOf_idle applies entry) fun _ => rfl
    exact follows_mono kept fun g' r same => ⟨same, fun item _ impossible => by cases impossible⟩

theorem repositoriesOf_follows (entries : List Fields) :
    (repositoriesOf (!args.apply) entries).Follows (careful args exclusions allowlist url secret)
      (fun g' r => g' = g ∧ ∀ items, r = .ok items → Lists args entries items) g := by
  induction entries with
  | nil => exact ⟨rfl, fun items same _ => Except.ok.inj same ▸ .nil⟩
  | cons entry rest ih =>
    apply follows_seq
    apply follows_mono (repositoryOf_follows entry)
    rintro g' (e | item) ⟨rfl, read⟩
    · exact ⟨rfl, fun items same => by cases same⟩
    apply follows_seq
    apply follows_mono ih
    rintro g'' (e | later) ⟨rfl, others⟩
    · exact ⟨rfl, fun items same => by cases same⟩
    refine ⟨rfl, fun items same applies => ?_⟩
    obtain rfl := Except.ok.inj same
    exact .cons (read item rfl applies) (others later rfl applies)

theorem listFrom_follows {maxPages left page : Nat} {discovered : List DiscoveredRepository}
    (lists : Lists args entries discovered) :
    (listFrom (!args.apply) maxPages left page discovered).Follows
      (careful args exclusions allowlist url secret)
      (fun g r => (∃ all, g = .of all) ∧ ∀ found, r = .ok found → ∃ all, g = .of all ∧
      Lists args all found) (.of entries) := by
  induction left generalizing page discovered entries with
  | zero =>
    apply follows_seq
    apply follows_mono listRepositoryPage_follows
    rintro g (e | more) ⟨somewhere, read⟩
    · exact ⟨somewhere, fun found same => by cases same⟩
    simp only
    split
    · exact ⟨somewhere, fun found same => by cases same⟩
    · rename_i none_
      refine ⟨somewhere, fun found same => ⟨entries, ?_, Except.ok.inj same ▸ lists⟩⟩
      rw [read more rfl, not_not.mp none_, List.append_nil]
  | succ left ih =>
    apply follows_seq
    apply follows_mono listRepositoryPage_follows
    rintro g (e | told) ⟨somewhere, read⟩
    · exact ⟨somewhere, fun found same => by cases same⟩
    obtain rfl := read told rfl
    apply follows_seq
    apply follows_mono (repositoriesOf_follows told)
    rintro g' (e | items) ⟨rfl, reads⟩
    · exact ⟨⟨_, rfl⟩, fun found same => by cases same⟩
    have longer : Lists args (entries ++ told) (discovered ++ items) := fun applies =>
      List.rel_append (lists applies) (reads items rfl applies)
    simp only
    split
    · exact ⟨⟨_, rfl⟩, fun found same => ⟨_, rfl, Except.ok.inj same ▸ longer⟩⟩
    · exact ih longer

/-! ## One repository -/

/-- Between the two, nothing was done but to the hooks of one repository. -/
structure Heard.Apart (repository : String) (g g' : Heard) : Prop where
  entries : g'.entries = g.entries
  complaints : g'.complaints = g.complaints
  others : ∀ other, other ≠ repository → g'.seen other = g.seen other ∧
    g'.pages other = g.pages other ∧ g'.whole other = g.whole other
  kept : ∀ deed ∈ g.wrote, deed ∈ g'.wrote
  added : ∀ deed ∈ g'.wrote, deed ∈ g.wrote ∨ deed.1 = repository

theorem Heard.Apart.refl (repository : String) (g : Heard) : g.Apart repository g :=
  ⟨rfl, rfl, fun _ _ => ⟨rfl, rfl, rfl⟩, fun _ member => member, fun _ member => .inl member⟩

theorem Heard.Apart.trans {repository : String} {g g' g'' : Heard} (first : g.Apart repository g')
    (second : g'.Apart repository g'') :
    g.Apart repository g'' where
  entries := second.entries.trans first.entries
  complaints := second.complaints.trans first.complaints
  others := fun other apart => by
    obtain ⟨seen, pages, whole⟩ := second.others other apart
    obtain ⟨seen', pages', whole'⟩ := first.others other apart
    exact ⟨seen.trans seen', pages.trans pages', whole.trans whole'⟩
  kept := fun deed member => second.kept deed (first.kept deed member)
  added := fun deed member => (second.added deed member).elim (first.added deed) .inr

def Heard.reads (g : Heard) (repository : String) (page : Nat) (found : List Fields) : Heard :=
  { g with seen := Function.update g.seen repository (g.seen repository ++ found),
           pages := Function.update g.pages repository page,
           whole := Function.update g.whole repository (found.length < 100) }

theorem Heard.apart_reads (g : Heard) (repository : String) (page : Nat) (found : List Fields) :
    g.Apart repository (g.reads repository page found) where
  entries := rfl
  complaints := rfl
  others := fun _ apart => ⟨Function.update_of_ne apart .., Function.update_of_ne apart ..,
  Function.update_of_ne apart ..⟩
  kept := fun _ member => member
  added := fun _ member => .inl member

theorem listHooks_follows {repository : String} {turns page : Nat}
    (open_ : g.Open args exclusions allowlist repository)
    (next : page = g.pages repository + 1) (unread : g.whole repository = false) :
    (listHooks repository turns page (g.seen repository)).Follows
      (careful args exclusions allowlist url secret)
      (fun g' r => g.Apart repository g' ∧ g'.wrote = g.wrote ∧ ∀ hooks, r = .ok hooks →
      g'.whole repository = true ∧ g'.seen repository = hooks) g := by
  induction turns generalizing g page with
  | zero => exact ⟨.refl _ _, rfl, fun hooks same => by cases same⟩
  | succ turns ih =>
    have may : (careful args exclusions allowlist url secret).may g (.hookPage repository page) :=
      ⟨open_, next, unread⟩
    have stays (e : Raised) : g.Apart repository g ∧ g.wrote = g.wrote ∧
        ∀ hooks, (Except.error e : Except Raised (List Fields)) = .ok hooks →
        g.whole repository = true ∧ g.seen repository = hooks :=
      ⟨.refl _ _, rfl, fun hooks same => by cases same⟩
    apply follows_seq
    apply follows_call may
    rintro (e | failed | payload)
    · exact stays e
    · exact stays _
    simp only
    change Follows _ _ _ (match mappings payload with | some found => g.reads repository page found | none => g)
    cases mappings payload with
    | none => exact stays _
    | some found =>
      have apart := g.apart_reads repository page found
      have seen : (g.reads repository page found).seen repository = g.seen repository ++ found :=
        Function.update_self ..
      have pages : (g.reads repository page found).pages repository = page := Function.update_self ..
      have whole : (g.reads repository page found).whole repository = decide (found.length < 100) :=
        Function.update_self ..
      simp only
      split
      · rename_i short
        refine ⟨apart, rfl, fun hooks same => ⟨whole.trans (decide_eq_true short), ?_⟩⟩
        rw [seen, Except.ok.inj same]
      · rename_i full
        have still : (g.reads repository page found).Open args exclusions allowlist repository :=
          ⟨open_.applies, open_.told, open_.first⟩
        have later := ih still (congrArg (· + 1) pages.symm) (whole.trans (decide_eq_false full))
        rw [seen] at later
        refine follows_mono later fun g' r ⟨apart', wrote, ended⟩ => ⟨apart.trans apart', wrote, ended⟩

/-- A hook that was set up, or was to be. -/
def Heard.writes (g : Heard) (repository : String) (sound : Bool) : Heard :=
  { g with wrote := g.wrote ++ [(repository, sound)] }

theorem Heard.apart_writes (g : Heard) (repository : String) (sound : Bool) :
    g.Apart repository (g.writes repository sound) where
  entries := rfl
  complaints := rfl
  others := fun _ _ => ⟨rfl, rfl, rfl⟩
  kept := fun _ member => List.mem_append_left _ member
  added := fun _ member => (List.mem_append.mp member).imp id fun last =>
  congrArg Prod.fst (List.mem_singleton.mp last)

/-- A request that sets a hook up, in the words of its answer. -/
def Heard.SetUp (repository : String) (g g' : Heard) (r : Except Raised String) : Prop :=
  g.Apart repository g' ∧ ∀ result, r = .ok result → (repository, true) ∈ g'.wrote

theorem answered_follows {repository result : String} (answer : Except Failed Unit) :
    (answered result answer).Follows (careful args exclusions allowlist url secret) (g.SetUp repository)
      (g.writes repository (match answer with | .ok _ => true | .error _ => false)) := by
  cases answer with
  | error failed => exact ⟨g.apart_writes _ _, fun result same => by cases same⟩
  | ok _ => exact ⟨g.apart_writes _ _, fun result same => List.mem_append_right _
      (List.mem_singleton.mpr rfl)⟩

theorem setUp_follows {repository : String} {hooks : List Fields}
    (open_ : g.Open args exclusions allowlist repository)
    (whole : g.whole repository = true) (seen : g.seen repository = hooks) :
    (setUp url secret repository hooks).Follows (careful args exclusions allowlist url secret)
    (g.SetUp repository) g := by
  unfold setUp
  split
  · rename_i none_
    have may : (careful args exclusions allowlist url secret).may g
        (.createHook repository (hookPayload url secret)) := by
      refine ⟨open_, rfl, whole, fun hook member same => ?_⟩
      rw [seen] at member
      exact List.find?_eq_none.mp none_ hook member (decide_eq_true same)
    apply follows_seq
    apply follows_call may
    rintro (e | answer)
    · exact ⟨g.apart_writes repository false, fun result same => by cases same⟩
    · cases answer with
      | error failed => exact answered_follows (.error failed)
      | ok sent => exact answered_follows (.ok sent)
  · rename_i hook found
    split
    · have may : (careful args exclusions allowlist url secret).may g
          (.updateHook repository (getOr hook "id" .null) (hookPayload url secret)) := by
        refine ⟨open_, rfl, whole, hook, seen ▸ List.mem_of_find?_eq_some found, of_decide_eq_true
          (List.find?_some (p := fun hook => decide (hookUrl hook = some url)) found), rfl⟩
      apply follows_seq
      apply follows_call may
      rintro (e | answer)
      · exact ⟨g.apart_writes repository false, fun result same => by cases same⟩
      · cases answer with
        | error failed => exact answered_follows (.error failed)
        | ok sent => exact answered_follows (.ok sent)
    · exact ⟨.refl _ _, fun result same => by cases same⟩

/-- Nothing of a repository was read or done yet. -/
structure Heard.Fresh (g : Heard) (repository : String) : Prop where
  seen : g.seen repository = []
  pages : g.pages repository = 0
  whole : g.whole repository = false

theorem ensurePushWebhook_follows {fault : List Char → Option String} {turns : Nat} {repository : String}
    (open_ : g.Open args exclusions allowlist repository) (fresh : g.Fresh repository) :
    (ensurePushWebhook fault turns url secret repository).Follows
    (careful args exclusions allowlist url secret) (g.SetUp repository) g := by
  have stays (e : Raised) : g.SetUp repository g (.error e) :=
    ⟨.refl _ _, fun result same => by cases same⟩
  unfold ensurePushWebhook
  split
  · exact stays _
  apply follows_seq
  apply follows_lift
  cases validateWebhookUrl fault url with
  | error e => exact stays e
  | ok _ =>
    simp only
    split
    · exact stays _
    have listed : (listHooks repository turns 1 (g.seen repository)).Follows
        (careful args exclusions allowlist url secret) _ g :=
      listHooks_follows open_ (by rw [fresh.pages]) fresh.whole
    rw [fresh.seen] at listed
    apply follows_seq
    apply follows_mono listed
    rintro g' (e | hooks) ⟨apart, wrote, ended⟩
    · exact ⟨apart, fun result same => by cases same⟩
    obtain ⟨whole, seen⟩ := ended hooks rfl
    have open' : g'.Open args exclusions allowlist repository :=
      ⟨open_.applies, apart.entries ▸ open_.told, wrote ▸ open_.first⟩
    exact follows_mono (setUp_follows open' whole seen) fun g'' r ⟨apart', set⟩ =>
      ⟨apart.trans apart', set⟩

/-! ## The selection -/

theorem skipReason_none {ops : String} (named : ops ≠ "") {item : DiscoveredRepository}
    (h : skipReason exclusions ops item = none) :
    lower item.repository ≠ lower ops ∧ lower item.repository ∉ exclusions ∧ item.isPrivate = true ∧
      item.archived = false ∧
      item.defaultBranch ≠ "" ∧ ∀ fragment ∈ invalidRefFragments, hasInfix item.defaultBranch
      fragment = false := by
  simp only [skipReason] at h
  split at h
  · cases h
  rename_i foreign
  split at h
  · cases h
  rename_i included
  split at h
  · cases h
  rename_i private_
  split at h
  · cases h
  rename_i archived
  split at h
  · cases h
  rename_i branch
  split at h
  · cases h
  rename_i trusted
  refine ⟨fun same => foreign ⟨named, same⟩, fun member =>
    included (List.contains_iff_mem.mpr member), by simpa using private_,
    Bool.eq_false_of_not_eq_true archived, branch, fun fragment member => ?_⟩
  rw [Bool.not_eq_true', Bool.not_eq_false, trustedDefaultBranch, Bool.and_eq_true,
    Bool.not_eq_true'] at trusted
  exact Bool.eq_false_of_not_eq_true fun inside => by
    have found : invalidRefFragments.any (hasInfix item.defaultBranch) = true :=
      List.any_eq_true.mpr ⟨fragment, member, inside⟩
    rw [trusted.2] at found
    cases found

theorem skipReason_adoptable {item : DiscoveredRepository}
    (adoptable : Adoptable args exclusions allowlist item) :
    skipReason exclusions (ops args) item = none := by
  have trusted : invalidRefFragments.any (hasInfix item.defaultBranch) = false := by
    rw [List.any_eq_false]
    intro fragment member inside
    rw [adoptable.trusted fragment member] at inside
    cases inside
  have foreign : ¬(ops args ≠ "" ∧ lower item.repository = lower (ops args)) :=
    fun same => adoptable.foreign same.2
  have included : ¬exclusions.contains (lower item.repository) = true :=
    fun member => adoptable.included (List.contains_iff_mem.mp member)
  simp only [skipReason, if_neg foreign, if_neg included, adoptable.isPrivate, adoptable.active,
    if_neg adoptable.branch, trustedDefaultBranch, trusted]
  simp [adoptable.branch]

theorem bySlug_some {discovered : List DiscoveredRepository} {slug : String} {item : DiscoveredRepository}
    (h : bySlug discovered slug = some item) : item ∈ discovered ∧ lower item.repository = slug := by
  unfold bySlug at h
  have named := List.find?_some (p := fun item : DiscoveredRepository =>
    decide (lower item.repository = slug)) h
  exact ⟨List.mem_reverse.mp (List.mem_of_find?_eq_some h), of_decide_eq_true named⟩

theorem bySlug_of_mem {discovered : List DiscoveredRepository} {item : DiscoveredRepository}
    (member : item ∈ discovered)
    (only : ∀ other ∈ discovered, lower other.repository = lower item.repository → other = item) :
    bySlug discovered (lower item.repository) = some item := by
  cases found : bySlug discovered (lower item.repository) with
  | none =>
    unfold bySlug at found
    exact absurd (decide_eq_true rfl) (List.find?_eq_none.mp found item (List.mem_reverse.mpr member))
  | some other =>
    obtain ⟨inside, same⟩ := bySlug_some found
    rw [only other inside same]

/-- What is known of a selection from what was discovered. -/
theorem mem_candidates {discovered : List DiscoveredRepository} {allOwned : Bool} {slug : String} :
    slug ∈ candidateSlugs discovered allowlist allOwned ↔
      (allOwned = true ∨ slug ∈ allowlist) ∧ ∃ item, bySlug discovered slug = some item := by
  unfold candidateSlugs
  cases allOwned with
  | true =>
    rw [if_pos rfl, slugs, List.mem_dedup]
    constructor
    · intro member
      obtain ⟨item, inside, same⟩ := List.mem_map.mp member
      refine ⟨.inl rfl, Option.isSome_iff_exists.mp (Option.isSome_iff_ne_none.mpr fun none_ => ?_)⟩
      unfold bySlug at none_
      exact List.find?_eq_none.mp none_ item (List.mem_reverse.mpr inside) (decide_eq_true same)
    · rintro ⟨-, item, found⟩
      obtain ⟨inside, same⟩ := bySlug_some found
      exact List.mem_map.mpr ⟨item, inside, same⟩
  | false =>
    rw [if_neg Bool.false_ne_true, List.mem_filter, List.mem_dedup, Option.isSome_iff_exists]
    simp

theorem mem_eligible {discovered : List DiscoveredRepository} {allOwned : Bool} {ops : String}
    {item : DiscoveredRepository} :
    item ∈ (selectAdoption exclusions ops discovered allowlist allOwned).eligible ↔
      (allOwned = true ∨ lower item.repository ∈ allowlist) ∧
        bySlug discovered (lower item.repository) = some item ∧
        skipReason exclusions ops item = none := by
  simp only [selectAdoption, List.mem_filter, List.mem_filterMap, sorted, List.mem_mergeSort,
    mem_candidates, Option.isNone_iff_eq_none]
  constructor
  · rintro ⟨⟨slug, ⟨named, -⟩, found⟩, kept⟩
    obtain ⟨-, rfl⟩ := bySlug_some found
    exact ⟨named, found, kept⟩
  · rintro ⟨named, found, kept⟩
    exact ⟨⟨_, ⟨named, item, found⟩, found⟩, kept⟩

theorem nodup_candidates (discovered : List DiscoveredRepository) (allowlist : List String)
    (allOwned : Bool) :
    (candidateSlugs discovered allowlist allOwned).Nodup := by
  unfold candidateSlugs
  split
  · exact List.nodup_dedup _
  · exact (List.nodup_dedup _).filter _

theorem nodup_eligible {discovered : List DiscoveredRepository} {allOwned : Bool} {ops : String} :
    ((selectAdoption exclusions ops discovered allowlist allOwned).eligible.map
    DiscoveredRepository.repository).Nodup := by
  have distinct : (sorted (candidateSlugs discovered allowlist allOwned)).Nodup :=
    (List.mergeSort_perm _ _).nodup_iff.mpr (nodup_candidates discovered allowlist allOwned)
  have names : ((sorted (candidateSlugs discovered allowlist allOwned)).filterMap
    (bySlug discovered)).map (fun item => lower item.repository)
      |>.Nodup := by
    refine (List.Nodup.filterMap ?_ distinct).map_on ?_
    · intro slug slug' item found found'
      rw [← (bySlug_some found).2, ← (bySlug_some found').2]
    · intro item member item' member' same
      obtain ⟨slug, -, found⟩ := List.mem_filterMap.mp member
      obtain ⟨slug', -, found'⟩ := List.mem_filterMap.mp member'
      rw [← (bySlug_some found).2, same, (bySlug_some found').2, found'] at found
      exact (Option.some.inj found).symm
  refine List.Nodup.of_map lower ?_
  rw [List.map_map]
  exact names.sublist (List.filter_sublist.map _)

/-- A selection without skips is all that was named. -/
theorem eligible_of_no_skips {discovered : List DiscoveredRepository} {ops : String}
    (none_ : (selectAdoption exclusions ops discovered allowlist false).skips = []) {slug : String}
    (named : slug ∈ allowlist) :
    ∃ item ∈ (selectAdoption exclusions ops discovered allowlist false).eligible,
    lower item.repository = slug := by
  have length := congrArg List.length none_
  simp only [selectAdoption, List.length_mergeSort, List.length_append, List.length_map,
    Bool.false_eq_true, if_false,
    List.length_nil, Nat.add_eq_zero_iff, List.length_eq_zero_iff] at length
  obtain ⟨unowned, refused⟩ := length
  have owned := List.filter_eq_nil_iff.mp unowned slug (by simpa [sorted] using named)
  rw [Option.isNone_iff_eq_none] at owned
  obtain ⟨item, found⟩ := Option.ne_none_iff_exists'.mp owned
  obtain ⟨-, rfl⟩ := bySlug_some found
  have candidate : item ∈ (sorted (candidateSlugs discovered allowlist false)).filterMap
      (bySlug discovered) := by
    refine List.mem_filterMap.mpr ⟨_, ?_, found⟩
    rw [sorted, List.mem_mergeSort, mem_candidates]
    exact ⟨.inr named, item, found⟩
  have kept := List.filterMap_eq_nil_iff.mp refused item candidate
  exact ⟨item, mem_eligible.mpr ⟨.inr named, found, Option.map_eq_none_iff.mp kept⟩, rfl⟩

/-! ## A pass -/

section
variable {fault : List Char → Option String} {turns : Nat}

/-- What a reconciliation leaves behind: each repository has its hook, or stands among the failures. -/
structure Reconciled (repositories : List String) (g g' : Heard)
    (r : Except Raised (List (String × String) × List (String × String))) : Prop where
  entries : g'.entries = g.entries
  complaints : g'.complaints = g.complaints
  kept : ∀ deed ∈ g.wrote, deed ∈ g'.wrote
  settled : ∀ changed failed, r = .ok (changed, failed) → ∀ repository ∈ repositories,
    (repository, true) ∈ g'.wrote ∨ ∃ text, (repository, text) ∈ failed

/-- One repository, and then the rest of them. -/
theorem Reconciled.cons {repository : String} {rest : List String} {g' g'' : Heard}
    {r r' : Except Raised (List (String × String) × List (String × String))}
    (away : g.Apart repository g') (later : Reconciled rest g' g'' r)
    (longer : ∀ changed' failed', r' = .ok (changed', failed') → ∃ changed failed,
      r = .ok (changed, failed) ∧ failed ⊆ failed' ∧
      ((repository, true) ∈ g'.wrote ∨ ∃ text, (repository, text) ∈ failed')) : Reconciled
      (repository :: rest) g g'' r' where
  entries := later.entries.trans away.entries
  complaints := later.complaints.trans away.complaints
  kept := fun sent member => later.kept sent (away.kept sent member)
  settled := by
    intro changed' failed' same other member
    obtain ⟨changed, failed, ended, more, here⟩ := longer changed' failed' same
    rcases List.mem_cons.mp member with rfl | member
    · exact here.imp (later.kept _) id
    · rcases later.settled changed failed ended other member with wrote | ⟨text, inside⟩
      · exact .inl wrote
      · exact .inr ⟨text, more inside⟩

theorem reconcileWebhooks_follows {repositories : List String} (distinct : repositories.Nodup)
    (open_ : ∀ repository ∈ repositories, g.Open args exclusions allowlist repository)
    (fresh : ∀ repository ∈ repositories, g.Fresh repository) :
    (reconcileWebhooks (ensurePushWebhook fault turns url secret) repositories).Follows
      (careful args exclusions allowlist url secret)
      (Reconciled repositories g) g := by
  induction repositories generalizing g with
  | nil => exact ⟨rfl, rfl, fun _ member => member, fun _ _ _ _ member => absurd member List.not_mem_nil⟩
  | cons repository rest ih =>
    obtain ⟨apart, distinct⟩ := List.nodup_cons.mp distinct
    have first : (ensurePushWebhook fault turns url secret repository).Follows
        (careful args exclusions allowlist url secret)
        (g.SetUp repository) g := ensurePushWebhook_follows (open_ repository List.mem_cons_self)
        (fresh repository List.mem_cons_self)
    apply follows_catch
    apply follows_mono first
    rintro g' result ⟨away, set⟩
    have later : (reconcileWebhooks (ensurePushWebhook fault turns url secret) rest).Follows
        (careful args exclusions allowlist url secret)
        (Reconciled rest g') g' := by
      refine ih distinct (fun other member => ?_) (fun other member => ?_)
      · have told := open_ other (List.mem_cons_of_mem _ member)
        refine ⟨told.applies, away.entries ▸ told.told, fun sent inside same => ?_⟩
        rcases away.added sent inside with old | new
        · exact told.first sent old same
        · exact apart (new.symm.trans same ▸ member)
      · have other_ : other ≠ repository := fun same => apart (same ▸ member)
        have clean := fresh other (List.mem_cons_of_mem _ member)
        obtain ⟨seen, pages, whole⟩ := away.others other other_
        exact ⟨seen.trans clean.seen, pages.trans clean.pages, whole.trans clean.whole⟩
    cases result with
    | ok result =>
      apply follows_seq
      apply follows_mono later
      rintro g'' (e | ⟨changed, failed⟩) rest_
      · exact .cons away rest_ fun _ _ same => by cases same
      · refine .cons away rest_ fun changed' failed' same => ?_
        obtain ⟨rfl, rfl⟩ := Prod.mk.inj (Except.ok.inj same)
        exact ⟨changed, failed, rfl, fun _ member => member, .inl (set result rfl)⟩
    | error e =>
      simp only
      cases e.caught with
      | none => exact ⟨away.entries, away.complaints, away.kept, fun _ _ same => by cases same⟩
      | some text =>
        apply follows_seq
        apply follows_mono later
        rintro g'' (e | ⟨changed, failed⟩) rest_
        · exact .cons away rest_ fun _ _ same => by cases same
        · refine .cons away rest_ fun changed' failed' same => ?_
          obtain ⟨rfl, rfl⟩ := Prod.mk.inj (Except.ok.inj same)
          exact ⟨changed, failed, rfl, fun _ member => List.mem_cons_of_mem _ member,
            .inr ⟨text, List.mem_cons_self⟩⟩

theorem print_idle (line : String) : (ask (.print line)).Only (idle args) := ⟨trivial, only_lift⟩

theorem printEach_idle (lines : List String) : (printEach lines).Only (idle args) := by
  induction lines with
  | nil => trivial
  | cons line rest ih => exact only_bind (print_idle line) fun _ => ih

/-- Lines on the error stream change nothing else. -/
theorem complainEach_follows (lines : List String) :
    (complainEach lines).Follows (careful args exclusions allowlist url secret)
      (fun g' r => g'.wrote = g.wrote ∧ g'.entries = g.entries ∧
        (∀ line ∈ g.complaints, line ∈ g'.complaints) ∧
        ∀ u, r = .ok u → ∀ line ∈ lines, line ∈ g'.complaints) g := by
  induction lines generalizing g with
  | nil => exact ⟨rfl, rfl, fun _ member => member, fun _ _ _ member => absurd member List.not_mem_nil⟩
  | cons line rest ih =>
    have may : (careful args exclusions allowlist url secret).may g (.printError line) := trivial
    apply follows_seq
    apply follows_call may
    rintro (e | _)
    · exact ⟨rfl, rfl, fun _ member => member, fun u same => by cases same⟩
    apply follows_mono ih
    rintro g' r ⟨wrote, entries, kept, said⟩
    refine ⟨wrote, entries, fun line member => kept line (List.mem_append_left _ member),
      fun u same other member => ?_⟩
    rcases List.mem_cons.mp member with rfl | member
    · exact kept _ (List.mem_append_right _ (List.mem_singleton.mpr rfl))
    · exact said u same other member

theorem Lists.listed {items : List DiscoveredRepository} (lists : Lists args entries items)
    (applies : args.apply = true)
    {item : DiscoveredRepository} : item ∈ items ↔ ∃ entry ∈ entries, listed entry = .ok item := by
  have each := mapM_ok_iff.mpr (lists applies)
  constructor
  · exact mem_of_mapM_ok each
  · rintro ⟨entry, member, reads⟩
    obtain ⟨other, inside, same⟩ := mapM_ok_of_mem each member
    obtain rfl := Except.ok.inj (reads.symm.trans same)
    exact inside

section Applying
variable {secret : Option String} {discovered : List DiscoveredRepository}

/-- A repository that was told and is to be adopted is selected. -/
theorem eligible_of_told (lists : Lists args entries discovered) (applies : args.apply = true)
    (same : g.entries = entries)
    {item : DiscoveredRepository} (told : g.Told item)
    (adoptable : Adoptable args exclusions allowlist item) :
    item ∈ (selectAdoption exclusions (ops args) discovered allowlist args.allOwned).eligible := by
  obtain ⟨there, only⟩ := told
  rw [same] at there only
  refine mem_eligible.mpr ⟨adoptable.named, bySlug_of_mem ((lists.listed applies).mpr there)
    fun other inside named => ?_, skipReason_adoptable adoptable⟩
  obtain ⟨entry, member, reads⟩ := (lists.listed applies).mp inside
  exact only entry member other reads named

theorem open_of_eligible (lists : Lists args entries discovered) (applies : args.apply = true)
    (named : ops args ≠ "") {repository : String}
    (member : repository ∈ (selectAdoption exclusions (ops args) discovered allowlist
    args.allOwned).eligible.map DiscoveredRepository.repository) :
    (Heard.of entries).Open args exclusions allowlist repository := by
  obtain ⟨item, eligible, rfl⟩ := List.mem_map.mp member
  obtain ⟨wanted, found, kept⟩ := mem_eligible.mp eligible
  obtain ⟨entry, inside, reads⟩ := (lists.listed applies).mp (bySlug_some found).1
  obtain ⟨foreign, included, isPrivate, active, branch, trusted⟩ := skipReason_none named kept
  exact ⟨applies, ⟨entry, inside, item, reads, rfl, wanted, foreign, included, isPrivate, active,
    branch, trusted⟩,
    fun sent nothing => absurd nothing List.not_mem_nil⟩

theorem applySelection_follows (lists : Lists args entries discovered) (applies : args.apply = true)
    (named : ops args ≠ "") :
    (applySelection fault turns args secret
      (selectAdoption exclusions (ops args) discovered allowlist args.allOwned)).Follows
      (careful args exclusions allowlist (args.webhookUrl.getD "") (secret.getD ""))
      (Adopted args exclusions allowlist) (.of entries) := by
  have stops (g : Heard) (e : Raised) : Adopted args exclusions allowlist g (.error e) :=
    ⟨fun off => (Bool.false_ne_true (off.symm.trans applies)).elim, fun _ same => (by cases same),
    fun same => (by cases same)⟩
  apply follows_seq
  apply follows_mono (reconcileWebhooks_follows nodup_eligible
    (fun _ => open_of_eligible lists applies named) fun _ _ => ⟨rfl, rfl, rfl⟩)
  rintro g (e | ⟨changed, failed⟩) ⟨told, quiet, -, settled⟩
  · exact stops g e
  apply follows_seq
  apply idle_follows (printEach_idle _)
  rintro (e | _)
  · exact stops g e
  apply follows_seq
  apply follows_mono (complainEach_follows _)
  rintro g' (e | _) ⟨wrote, entries_, -, said⟩
  · exact stops g' e
  have reached {repository : String} (member : repository ∈
      (selectAdoption exclusions (ops args) discovered allowlist args.allOwned).eligible.map
      DiscoveredRepository.repository) :
      (repository, true) ∈ g'.wrote ∨ ∃ text, (repository, text) ∈ failed := by
    rw [wrote]
    exact settled changed failed rfl repository member
  refine ⟨fun off => (Bool.false_ne_true (off.symm.trans applies)).elim, fun answer same _ =>
    .inr fun item heard adoptable => ?_,
    fun passed _ typed slug member => ?_⟩
  · have eligible := eligible_of_told lists applies (entries_.trans told) heard adoptable
    rcases reached (List.mem_map_of_mem eligible) with done_ | ⟨text, inside⟩
    · exact .inl done_
    · refine .inr ⟨?_, text, said () rfl _ (List.mem_map.mpr ⟨(item.repository, text), inside, rfl⟩)⟩
      rw [← Except.ok.inj same, Bool.and_eq_false_iff]
      exact .inl (decide_eq_false (List.ne_nil_of_mem inside))
  · have both := Except.ok.inj passed
    rw [Bool.and_eq_true, Bool.or_eq_true, typed] at both
    have none_ : failed = [] := of_decide_eq_true both.1
    have skips := of_decide_eq_true (both.2.resolve_right Bool.false_ne_true)
    rw [typed] at reached
    obtain ⟨item, eligible, rfl⟩ := eligible_of_no_skips skips member
    rcases reached (List.mem_map_of_mem eligible) with done_ | ⟨text, inside⟩
    · exact ⟨item.repository, rfl, done_⟩
    · rw [none_] at inside
      exact absurd inside List.not_mem_nil

theorem adoptFrom_follows (lists : Lists args entries discovered) (named : ops args ≠ "")
    (selects : args.apply = true → ¬(allowlist = [] ∧ (!args.allOwned) = true)) :
    (adoptFrom fault turns args secret exclusions allowlist discovered).Follows
      (careful args exclusions allowlist (args.webhookUrl.getD "") (secret.getD ""))
      (Adopted args exclusions allowlist) (.of entries) := by
  have unapplied (off : args.apply = false) (r : Except Raised Bool) :
      Adopted args exclusions allowlist (.of entries) r :=
    ⟨fun _ => rfl, fun _ _ applies => (Bool.false_ne_true (off.symm.trans applies)).elim,
      fun _ applies => (Bool.false_ne_true (off.symm.trans applies)).elim⟩
  have stops (e : Raised) : Adopted args exclusions allowlist (.of entries) (.error e) :=
    ⟨fun _ => rfl, fun _ same => (by cases same), fun same => (by cases same)⟩
  apply follows_seq
  apply idle_follows (print_idle _)
  rintro (e | _)
  · exact stops e
  simp only
  split
  · rename_i nothing
    have off : args.apply = false := Bool.eq_false_of_not_eq_true fun applies => selects applies nothing
    refine idle_follows (only_bind (print_idle _) fun _ => only_bind (printEach_idle _) fun _ =>
      trivial) (unapplied off)
  · apply follows_seq
    apply idle_follows (printEach_idle _)
    rintro (e | _)
    · exact stops e
    simp only
    split
    · rename_i off
      rw [Bool.not_eq_true'] at off
      exact idle_follows (only_bind (printEach_idle _) fun _ => trivial) (unapplied off)
    · rename_i applies
      rw [Bool.not_eq_true', Bool.not_eq_false] at applies
      exact applySelection_follows lists applies named

end Applying

theorem checkArgs_ok {secret : Option String} {u : Unit}
    (h : checkArgs fault args secret allowlist = .ok u) :
    ops args ≠ "" ∧ (args.apply = true → ¬(allowlist = [] ∧ (!args.allOwned) = true)) := by
  simp only [checkArgs] at h
  split at h
  · cases h
  rename_i slug
  split at h
  · cases h
  split at h
  · cases h
  rename_i named
  refine ⟨fun empty => ?_, fun applies nothing => named ⟨applies, nothing⟩⟩
  rw [Bool.not_eq_true', Bool.not_eq_false] at slug
  cases given : args.opsRepository with
  | none =>
    rw [given] at slug
    cases slug
  | some repository =>
    rw [given] at slug
    rw [ops, given] at empty
    obtain rfl : repository = "" := empty
    exact absurd slug (by decide)

end

/-- A pass that applies changes only hooks of private, active repositories that were listed under
the credential and named or all asked for, each at most once, after it read all hooks of the
repository, and only the hook with its own address or a new one. Its answer says of every such
repository that the hook is there, unless the pass said why not. -/
theorem adoption_careful (fault : List Char → Option String) (turns : Nat) (args : Args)
    (secret : Option String)
    (exclusions allowlist : List String) :
    (runAdoption fault turns args secret exclusions allowlist).Follows
      (careful args exclusions allowlist (args.webhookUrl.getD "") (secret.getD ""))
      (Adopted args exclusions allowlist) {} := by
  have stops (all : List Fields) (e : Raised) : Adopted args exclusions allowlist (.of all) (.error e) :=
    ⟨fun _ => rfl, fun _ same => (by cases same), fun same => (by cases same)⟩
  apply follows_seq
  apply follows_lift
  cases checked : checkArgs fault args secret allowlist with
  | error e => exact stops [] e
  | ok _ =>
    obtain ⟨named, selects⟩ := checkArgs_ok checked
    apply follows_catch
    have nothing : Lists args [] [] := fun _ => .nil
    apply follows_mono (listFrom_follows nothing)
    rintro g (e | discovered) ⟨⟨all, rfl⟩, ended⟩
    · cases e with
      | githubApi message =>
        have may : (careful args exclusions allowlist (args.webhookUrl.getD "")
            (secret.getD "")).may (.of all)
            (.printError s!"Repository discovery failed: {message}") := trivial
        apply follows_seq
        apply follows_call may
        rintro (e | _)
        · exact stops all e
        refine ⟨fun _ => rfl, fun answer same _ => .inl ⟨(Except.ok.inj same).symm, message, ?_⟩,
          fun same => by cases same⟩
        exact List.mem_append_right _ (List.mem_singleton.mpr rfl)
      | _ => exact stops all _
    · obtain ⟨entries, same, lists⟩ := ended discovered rfl
      rw [same]
      exact adoptFrom_follows lists named selects

end
end Cindral.Github.Adoption
