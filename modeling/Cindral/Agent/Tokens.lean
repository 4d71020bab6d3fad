import Cindral.Agent.Auth

/-!
# Tokens that speak for their devices

`parse` accepts a map when the broker starts, and `index` reads it when a request comes. `Spoken` is
what the two have to agree on, and it holds exactly of the maps whose tokens differ, have no white
space around them and are text a header can carry.
-/

namespace Cindral.Agent
open Base

variable {δ : Type} [DecidableEq δ] {sha256 : String → δ} {tokens : Tokens} {secrets : Secrets}

theorem bearer_token (token : String) : bearer ("Bearer " ++ token) = some (strip token) := by
  have rest : afterPrefix? "Bearer " ("Bearer " ++ token).toList = some token.toList :=
    afterPrefix?_eq_some.mpr String.toList_append
  rw [bearer, rest, Option.map_some, String.ofList_toList]

/-- What `index` builds of a map. -/
def digests (sha256 : String → δ) (tokens : Tokens) : List (δ × String) :=
  tokens.rows.map fun entry => (sha256 entry.2, entry.1)

omit [DecidableEq δ] in
theorem digests_keys (tokens : Tokens) :
    (digests sha256 tokens).map Prod.fst = (tokens.rows.map Prod.snd).map sha256 := by
  rw [digests, List.map_map, List.map_map]
  rfl

theorem index_ok_iff {built : List (δ × String)} :
    index sha256 tokens = .ok built ↔ ((digests sha256 tokens).map Prod.fst).Nodup ∧
    digests sha256 tokens = built := by
  unfold index
  change (if ((digests sha256 tokens).map Prod.fst).Nodup then Except.ok
    (digests sha256 tokens) else _) = _ ↔ _
  split
  · rename_i single
    exact ⟨fun same => ⟨single, Except.ok.inj same⟩, fun same => congrArg Except.ok same.2⟩
  · rename_i twice
    exact ⟨fun same => (by cases same), fun same => absurd same.1 twice⟩

theorem deviceFor_ok_iff {presented : String} {device : Option String} :
    deviceFor sha256 presented tokens = .ok device ↔
    ∃ single : ((digests sha256 tokens).map Prod.fst).Nodup,
      (Table.find? (⟨digests sha256 tokens, single⟩ : Table (Prod.fst : δ × String → δ))
      (sha256 presented)).map Prod.snd = device := by
  rw [deviceFor]
  constructor
  · intro h
    cases read : index sha256 tokens with
    | error e => rw [read] at h; cases h
    | ok built =>
      obtain ⟨single, rfl⟩ := index_ok_iff.mp read
      rw [read] at h
      exact ⟨single, Except.ok.inj h⟩
  · rintro ⟨single, rfl⟩
    rw [index_ok_iff.mpr ⟨single, rfl⟩]
    rfl

/-- The device of a token, when no two devices have the same one. -/
theorem deviceFor_some_iff {presented device : String} :
    deviceFor sha256 presented tokens = .ok (some device) ↔
    ((digests sha256 tokens).map Prod.fst).Nodup ∧
      ∃ entry ∈ tokens.rows, sha256 entry.2 = sha256 presented ∧ entry.1 = device := by
  rw [deviceFor_ok_iff]
  constructor
  · rintro ⟨single, found⟩
    obtain ⟨built, first, rfl⟩ := Option.map_eq_some_iff.mp found
    obtain ⟨member, digest⟩ := Table.find?_some first
    obtain ⟨entry, listed, rfl⟩ := List.mem_map.mp member
    exact ⟨single, entry, listed, digest, rfl⟩
  · rintro ⟨single, entry, listed, digest, rfl⟩
    refine ⟨single, ?_⟩
    have first := Table.find?_of_mem
      (t := (⟨digests sha256 tokens, single⟩ : Table (Prod.fst : δ × String → δ)))
      (List.mem_map_of_mem listed)
    rw [← digest, first]
    rfl

/-! ## What a map has to be -/

def maxHeaderLine : Nat := 65536

/-- Whether a line break in a header value stands only where the value goes on in a next line, which
starts with a space or a tab. -/
def folded : List Char → Bool
  | [] => true
  | '\n' :: rest => (rest.head? = some ' ' || rest.head? = some '\t') && folded rest
  | '\r' :: rest => (rest.head? = some ' ' || rest.head? = some '\t' || rest.head? = some '\n') &&
      folded rest
  | _ :: rest => folded rest

/-- The `Authorization` values that `http.server` can hand over as they were sent: Latin-1, folded,
and in lines it reads. -/
def receivable (header : String) : Bool :=
  header.toList.all (·.toNat < 256) && folded header.toList &&
    (("Authorization: " ++ header ++ "\r").toList.splitOn '\n').all (·.length < maxHeaderLine)

/-- Each device can present its own token and is let in by it, as itself and as no other, and no
other token crashes a request. -/
structure Spoken (sha256 : String → δ) (secrets : Secrets) (tokens : Tokens) : Prop where
  carried : ∀ entry ∈ tokens.rows, receivable ("Bearer " ++ entry.2) = true
  admitted : ∀ entry ∈ tokens.rows, secrets.agentAuthorized sha256 ("Bearer " ++ entry.2) = .ok true
  itself : ∀ entry ∈ tokens.rows, ∀ device,
    secrets.authorizedAs sha256 ("Bearer " ++ entry.2) device = .ok (device = entry.1)
  answered : ∀ token ∉ tokens.rows.map Prod.snd, receivable ("Bearer " ++ token) = true →
    ∃ device, secrets.presentedDevice sha256 ("Bearer " ++ token) = .ok device

/-- The tokens of a map and what a header leaves of them. -/
def Tokens.spellings (tokens : Tokens) : List String :=
  tokens.rows.map Prod.snd ++ tokens.rows.map fun entry => strip entry.2

theorem presentedDevice_token (mapped : secrets.agentTokens = some tokens) (token : String) :
    secrets.presentedDevice sha256 ("Bearer " ++ token) = deviceFor sha256 (strip token) tokens := by
  simp only [Secrets.presentedDevice, mapped, bearer_token]

theorem itself_iff (mapped : secrets.agentTokens = some tokens) (entry : String × String) :
    (∀ device, secrets.authorizedAs sha256 ("Bearer " ++ entry.2) device = .ok (device = entry.1)) ↔
      deviceFor sha256 (strip entry.2) tokens = .ok (some entry.1) := by
  simp only [Secrets.authorizedAs, mapped, presentedDevice_token mapped]
  cases deviceFor sha256 (strip entry.2) tokens with
  | error e => exact ⟨fun h => (by cases h entry.1), fun h => (by cases h)⟩
  | ok found =>
    simp only [Except.map, Except.ok.injEq, decide_eq_decide]
    constructor
    · exact fun h => (h entry.1).mpr rfl
    · rintro rfl device
      rw [Option.some_inj, eq_comm]

/-- A map speaks for its devices when its tokens differ, nothing stands around them and a header
carries them, and otherwise it does not. -/
theorem spoken_iff (mapped : secrets.agentTokens = some tokens) (some_ : tokens.rows ≠ [])
    (apart : ∀ a ∈ tokens.spellings, ∀ b ∈ tokens.spellings, sha256 a = sha256 b → a = b) :
    Spoken sha256 secrets tokens ↔ (tokens.rows.map Prod.snd).Nodup ∧
      ∀ entry ∈ tokens.rows, strip entry.2 = entry.2 ∧ receivable ("Bearer " ++ entry.2) = true := by
  have given (entry : String × String) (member : entry ∈ tokens.rows) : entry.2 ∈ tokens.spellings :=
    List.mem_append_left _ (List.mem_map_of_mem member)
  have stripped (entry : String × String) (member : entry ∈ tokens.rows) :
      strip entry.2 ∈ tokens.spellings :=
    List.mem_append_right _ (List.mem_map_of_mem (f := fun entry : String × String => strip entry.2)
    member)
  constructor
  · intro spoken
    have indexed (entry : String × String) (member : entry ∈ tokens.rows) :=
      deviceFor_some_iff.mp ((itself_iff mapped entry).mp (spoken.itself entry member))
    obtain ⟨first, member⟩ := List.exists_mem_of_ne_nil _ some_
    refine ⟨?_, fun entry member => ?_⟩
    · have single := (indexed first member).1
      rw [digests_keys] at single
      exact single.of_map
    · obtain ⟨-, other, held, digest, name⟩ := indexed entry member
      obtain rfl := Table.eq_of_key held member name
      exact ⟨(apart _ (given other held) _ (stripped other held) digest).symm, spoken.carried other held⟩
  · rintro ⟨distinct, bare⟩
    have single : ((digests sha256 tokens).map Prod.fst).Nodup := by
      rw [digests_keys]
      refine distinct.map_on fun a left b right => apart a ?_ b ?_
      · exact List.mem_append_left _ left
      · exact List.mem_append_left _ right
    have known (entry : String × String) (member : entry ∈ tokens.rows) :
        deviceFor sha256 (strip entry.2) tokens = .ok (some entry.1) :=
      deviceFor_some_iff.mpr ⟨single, entry, member, by rw [(bare entry member).1], rfl⟩
    refine ⟨fun entry member => (bare entry member).2, fun entry member => ?_,
      fun entry member => (itself_iff mapped entry).mpr (known entry member), fun token _ _ => ?_⟩
    · simp only [Secrets.agentAuthorized, mapped, presentedDevice_token mapped, known entry member,
        Except.map, Option.isSome_some]
    · rw [presentedDevice_token mapped]
      exact ⟨_, deviceFor_ok_iff.mpr ⟨single, rfl⟩⟩

/-! ## What `parse` lets through -/

variable {py : Conversions} {fields : List (String × Json)}

/-- The entries a decoded object stands for. -/
def textFields (py : Conversions) (fields : List (String × Json)) : List (String × String) :=
  fields.map fun field => (field.1, py.str field.2)

theorem rows_replace_fresh {t : Tokens} {entry : String × String}
    (fresh : entry.1 ∉ t.rows.map Prod.fst) :
    (t.replace entry).rows = t.rows ++ [entry] := by
  have kept : t.rows.filter (fun x => x.1 ≠ entry.1) = t.rows := by
    rw [List.filter_eq_self]
    intro x member
    exact decide_eq_true fun same => fresh (same ▸ List.mem_map_of_mem member)
  exact congrArg (· ++ [entry]) kept

/-- An object that names no device twice becomes the map it reads as. -/
theorem rows_parseTokens (named : (fields.map Prod.fst).Nodup) :
    (parseTokens py fields).rows = textFields py fields := by
  have fold : ∀ (rest : List (String × Json)) (t : Tokens),
      (t.rows.map Prod.fst ++ rest.map Prod.fst).Nodup →
      (rest.foldl (fun tokens field => tokens.replace (field.1, py.str field.2)) t).rows = t.rows ++
      textFields py rest := by
    intro rest
    induction rest with
    | nil => exact fun t _ => (List.append_nil _).symm
    | cons field rest ih =>
      intro t distinct
      have fresh : field.1 ∉ t.rows.map Prod.fst := fun member =>
        List.disjoint_of_nodup_append distinct member List.mem_cons_self
      have rows : (t.replace (field.1, py.str field.2)).rows = _ := rows_replace_fresh fresh
      rw [List.foldl_cons, ih, rows, List.append_assoc]
      · rfl
      · rw [rows, List.map_append, List.append_assoc]
        exact distinct
  exact fold fields Table.empty named

theorem parse_ok {loads : String → Option Json} {raw : String} (decoded : loads raw = some (.obj fields))
    (accepted : parse py loads (some raw) = .ok (some tokens)) :
    tokens = parseTokens py fields ∧ fields ≠ [] := by
  simp only [parse, decoded] at accepted
  split at accepted
  · cases accepted
  · cases fields with
    | nil => cases accepted
    | cons field rest =>
      simp only at accepted
      split at accepted
      · cases accepted
      · exact ⟨(Option.some.inj (Except.ok.inj accepted)).symm, List.cons_ne_nil _ _⟩

/-- Of the maps `parse` lets through, those speak for every device whose tokens differ, have no
white space around them and are text a header can carry. -/
theorem accepted_tokens {loads : String → Option Json} {raw : String}
    (decoded : loads raw = some (.obj fields))
    (named : (fields.map Prod.fst).Nodup) (accepted : parse py loads (some raw) = .ok (some tokens))
    (mapped : secrets.agentTokens = some tokens)
    (apart : ∀ a ∈ tokens.spellings, ∀ b ∈ tokens.spellings, sha256 a = sha256 b → a = b) :
    Spoken sha256 secrets tokens ↔
      (fields.map fun field => py.str field.2).Nodup ∧ ∀ field ∈ fields,
        strip (py.str field.2) = py.str field.2 ∧ receivable ("Bearer " ++ py.str field.2) = true := by
  obtain ⟨rfl, some_⟩ := parse_ok decoded accepted
  have rows : (parseTokens py fields).rows = _ := rows_parseTokens named
  have filled : (parseTokens py fields).rows ≠ [] := by
    rw [rows]
    exact fun none => some_ (List.map_eq_nil_iff.mp none)
  rw [spoken_iff mapped filled apart, rows, textFields, List.map_map]
  simp only [List.forall_mem_map]
  rfl

/-- `str` and `int` where they are simplest. -/
def plainConversions : Conversions where
  str
    | .str text => text
    | _ => ""
  int
    | .int n => .ok n
    | _ => .error (.typeError "int() argument must be a number")
  str_str _ := rfl
  int_int _ := rfl

/-- `str` and `int` of texts and of counts. -/
def countConversions : Conversions :=
  { plainConversions with
    int := fun
      | .int n => .ok n
      | .str text =>
        if text.toList.all Char.isDigit then
          .ok (Int.ofNat (text.toList.foldl (fun n c => 10 * n + (c.toNat - 48)) 0))
        else .error (.valueError "invalid literal for int() with base 10")
      | _ => .error (.typeError "int() argument must be a number")
    int_int := fun _ => rfl }

/-- A value of `CINDRAL_AGENT_TOKENS` that gives two devices one token, and one that does not. -/
def twinsText : String := "\x7b\"pi\": \"shared\", \"nas\": \"shared\"\x7d"
def pairText : String := "\x7b\"pi\": \"first\", \"nas\": \"second\"\x7d"

def twins : List (String × Json) := [("pi", .str "shared"), ("nas", .str "shared")]
def pair : List (String × Json) := [("pi", .str "first"), ("nas", .str "second")]

def deviceLoads (raw : String) : Option Json :=
  if raw = twinsText then some (.obj twins) else if raw = pairText then some (.obj pair) else none

def mappedSecrets (fields : List (String × Json)) : Secrets :=
  { agentToken := none, agentTokens := some (parseTokens plainConversions fields),
      poolToken := none, dispatchToken := none }

theorem pair_spoken : Spoken id (mappedSecrets pair) (parseTokens plainConversions pair) :=
  (@accepted_tokens String _ id (parseTokens plainConversions pair) (mappedSecrets pair)
    plainConversions pair deviceLoads
    pairText (by rfl) (by decide) (by rfl) rfl (fun _ _ _ _ same => same)).mpr ⟨by decide, by decide⟩

/-- The broker starts with the twins' map, and then every request with a bearer token crashes. -/
theorem twins_crash : parse plainConversions deviceLoads (some twinsText) = .ok
    (mappedSecrets twins).agentTokens ∧
    (∀ token, (mappedSecrets twins).presentedDevice id ("Bearer " ++ token) =
      .error (.valueError "every device in CINDRAL_AGENT_TOKENS must have a distinct token")) ∧
    ¬ Spoken id (mappedSecrets twins) (parseTokens plainConversions twins) := by
  have crash (token : String) : (mappedSecrets twins).presentedDevice id ("Bearer " ++ token) =
      .error (.valueError "every device in CINDRAL_AGENT_TOKENS must have a distinct token") := by
    rw [presentedDevice_token rfl]
    rfl
  refine ⟨by rfl, crash, fun spoken => ?_⟩
  obtain ⟨device, answered⟩ := spoken.answered "other" (by decide) (by decide)
  rw [crash] at answered
  cases answered

end Cindral.Agent
