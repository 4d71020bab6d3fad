import Cindral.Actions.Resolution

/-!
# The toolchain of a setup action

What a step that names a setup action installs. The version comes from the workflow, from the run's
context or from a file of the repository, and only a plain one reaches a command.
-/

namespace Cindral.Actions
open Cindral.Base Cindral.Workflow

/-- What stops a translation: a construct it does not know, context that the run does not carry, or
a job that runs nothing. -/
inductive Stop where
  | unsupported (message : String)
  | context (message : String)
  | invalid (message : String)

/-- What a translation reads of the checkout. A version file that cannot be read says why. -/
structure Files where
  versionFile : String → Except String String
  packageManager : Option Json

def versionInputs : List (String × List String) :=
  [("actions/setup-go", ["go-version", "go-version-file"]), ("actions/setup-node", ["node-version"]),
    ("actions/setup-python", ["python-version"]), ("pnpm/action-setup", ["version"])]

def setupActions : List String := versionInputs.map Prod.fst

def cacheInputs : List String := ["cache", "cache-dependency-path"]
def cacheActions : List String := ["actions/setup-go", "actions/setup-node", "actions/setup-python"]

/-! ## Versions -/

def digits (cs : List Char) : Bool := cs ≠ [] && cs.all isDecimal

def withoutV : List Char → List Char
  | 'v' :: rest => rest
  | cs => cs

def versionParts (version : String) : List (List Char) := (withoutV version.toList).splitOn '.'

def exactVersion (version : String) : Bool := (versionParts version).all digits

def releaseLine (version : String) : Bool := exactVersion version && (versionParts version).length ≤ 3

def pythonLine (version : String) : Bool :=
  match version.toList.splitOn '.' with
  | [['3'], minor] => digits minor
  | _ => false

def pythonVersion (version : String) : Bool :=
  match version.toList.splitOn '.' with
  | [['3'], minor, patch] => digits minor && digits patch
  | _ => pythonLine version

def suffixChar (c : Char) : Bool := c.isAlphanum || c = '.' || c = '+' || c = '-'

def startsSuffix (c : Char) : Bool := c = '-' || c = '+'

def pnpmVersion (version : String) : Bool :=
  let core := version.toList.takeWhile (!startsSuffix ·)
  let suffix := version.toList.dropWhile (!startsSuffix ·)
  (core.splitOn '.').length = 3 && (core.splitOn '.').all digits &&
  (suffix = [] || 2 ≤ suffix.length && suffix.tail.all suffixChar)

/-- A run of digits, and what follows it. -/
def takeDigits (cs : List Char) : Option (List Char × List Char) :=
  if digits (cs.takeWhile isDecimal) then some (cs.span isDecimal) else none

/-- Digits, a point and digits, and what follows them. -/
def takeRelease (cs : List Char) : Option (List Char × List Char) := do
  let (major, rest) ← takeDigits cs
  let rest ← afterPrefix? "." rest
  let (minor, rest) ← takeDigits rest
  some (major ++ '.' :: minor, rest)

def packageManagerVersion (declared : String) : Option String := do
  let rest ← afterPrefix? "pnpm@" declared.toList
  let lead := rest.take (rest.length - (withoutV rest).length)
  let (release, rest) ← takeRelease (withoutV rest)
  let rest ← afterPrefix? "." rest
  let (patch, rest) ← takeDigits rest
  let tag := match rest with
    | '-' :: rest => rest.takeWhile fun c => c.isAlphanum || c = '.' || c = '-'
    | _ => []
  some (.ofList (lead ++ release ++ '.' :: patch ++ if tag = [] then [] else '-' :: tag))

/-- `GO_DIRECTIVE`, on one line of which the text begins. The blanks around the version may run over
lines. -/
def goDirectiveAt (text : List Char) : Option String := do
  let rest ← afterPrefix? "go" text
  let version := rest.dropWhile isSpace
  if rest.length = version.length then none
  let lead := version.take (version.length - (withoutV version).length)
  let (release, rest) ← takeRelease (withoutV version)
  let (release, rest) := match (do
      let after ← afterPrefix? "." rest
      takeDigits after) with
    | some (patch, after) => (release ++ '.' :: patch, after)
    | none => (release, rest)
  let blanks := rest.takeWhile isSpace
  if blanks.contains '\n' || blanks.length = rest.length then some (.ofList (lead ++ release)) else none

/-- `GO_DIRECTIVE.search` -/
def goDirective (text : List Char) : Option String :=
  (goDirectiveAt text).orElse fun _ => text.tails.findSome? fun rest => match rest with
    | '\n' :: line => goDirectiveAt line
    | _ => none

def isLineBreak (c : Char) : Bool :=
  let n := c.toNat
  (0xa ≤ n && n ≤ 0xd) || (0x1c ≤ n && n ≤ 0x1e) || n = 0x85 || n = 0x2028 || n = 0x2029

def withoutComment : List Char → List Char
  | '/' :: '/' :: _ => []
  | c :: rest => c :: withoutComment rest
  | [] => []

/-- The first line that is a version and nothing else. -/
def plainLine (text : List Char) : Option String :=
  ((text.splitOnP isLineBreak).map fun line =>
  String.ofList (stripChars (withoutComment line))).find? fun line =>
    line ≠ "" && exactVersion line

/-! ## Commands -/

def arch : String :=
  "a=$(uname -m) && case \"$a\" in x86_64) g=amd64; n=x64; p=amd64 ;; aarch64|arm64) g=arm64; n=arm64; p=arm64 ;; " ++
    "*) echo \"cindral: no release for architecture $a\" >&2; exit 1 ;; esac"

def fetch : String :=
  "apt-get update -qq && apt-get install -y -qq --no-install-recommends ca-certificates curl"

/-- `re.escape`, of a version. -/
def escaped (version : String) : String :=
  .ofList (version.toList.flatMap fun c => if c = '.' then ['\\', '.'] else [c])

def points (version : String) : Nat := version.toList.count '.'

def goInstall (release : String) : String :=
  arch ++ " && curl -fsSL \"https://go.dev/dl/" ++ release ++
    ".linux-$g.tar.gz\" | tar -xz -C /usr/local " ++
    "&& ln -sf /usr/local/go/bin/go /usr/local/bin/go && ln -sf /usr/local/go/bin/gofmt /usr/local/bin/gofmt && go version"

def goCommands (version : String) : List String :=
  if points version = 2 then [fetch, goInstall ("go" ++ version)]
  else
    let release :=
      "$(curl -fsSL 'https://go.dev/dl/?mode=json&include=all' | grep -oE '\"version\": \"go" ++
      escaped version ++
      "\\.[0-9]+\"' | head -1 | cut -d'\"' -f4)"
    [fetch, arch ++ " && [ -n \"" ++ release ++
      "\" ] || \x7b echo \"cindral: no Go release published for line " ++ version ++
      "\" >&2; exit 1; \x7d", goInstall release]

def nodeArchive : String := "awk -v a=\"linux-$n.tar.gz\" '$2 ~ a\"$\" \x7bprint $2; exit\x7d') && [ -n \"$file\" ] && curl -fsSL \""

def nodeUnpack : String := "| tar -xz -C /usr/local --strip-components=1 && node --version"

def nodeInstall (directory label : String) : List String :=
  [fetch, arch ++ " && sums=$(curl -fsSL \"https://nodejs.org/dist/" ++ directory ++
    "/SHASUMS256.txt\") || \x7b echo \"cindral: no Node release published for " ++ label ++
    "\" >&2; exit 1; \x7d; " ++
    "file=$(printf '%s\\n' \"$sums\" | " ++ nodeArchive ++ "https://nodejs.org/dist/" ++
    directory ++ "/$file\" " ++ nodeUnpack]

def nodeInstallFromIndex (version : String) : List String :=
  [fetch, arch ++
    " && release=$(curl -fsSL https://nodejs.org/dist/index.json | grep -oE '\"version\":\"v" ++
    escaped version ++
    "\\.[0-9]+\"' | head -1 | cut -d'\"' -f4) && [ -n \"$release\" ] || " ++
    "\x7b echo \"cindral: no Node release published for line " ++ version ++ "\" >&2; exit 1; \x7d" ++
    " && dir=\"https://nodejs.org/dist/$release\" && file=$(curl -fsSL \"$dir/SHASUMS256.txt\" | "
    ++ nodeArchive ++ "$dir/$file\" " ++
    nodeUnpack]

def nodeCommands (version : String) : List String :=
  if points version = 2 then nodeInstall ("v" ++ version) ("version " ++ version)
  else if points version = 0 then nodeInstall ("latest-v" ++ version ++ ".x") ("line " ++ version)
  else nodeInstallFromIndex version

def pythonCommands (version : String) : List String :=
  [fetch ++ " && apt-get install -y -qq --no-install-recommends gnupg",
    "mkdir -p /etc/apt/keyrings && curl -fsSL 'https://keyserver.ubuntu.com/pks/lookup?op=get&search=" ++
      "0xF23C5A6CF475977595C89F51BA6932366A755776' -o /etc/apt/keyrings/deadsnakes.asc && " ++
      ". /etc/os-release && printf \"deb [signed-by=/etc/apt/keyrings/deadsnakes.asc] " ++
      "https://ppa.launchpadcontent.net/deadsnakes/ppa/ubuntu/ $UBUNTU_CODENAME main\\n\" " ++
      "> /etc/apt/sources.list.d/cindral-deadsnakes.list && apt-get update -qq",
    "apt-get install -y -qq --no-install-recommends python" ++ version ++ " python" ++ version ++
      "-venv " ++
      "&& curl -fsSL https://bootstrap.pypa.io/get-pip.py | python" ++ version ++
      " - --break-system-packages " ++
      "&& ln -sf /usr/bin/python" ++ version ++ " /usr/local/bin/python3 " ++
      "&& ln -sf /usr/bin/python" ++ version ++ " /usr/local/bin/python && python --version"]

def pnpmCommands (version : String) : List String :=
  [fetch, arch ++ " && curl -fsSL \"https://github.com/pnpm/pnpm/releases/download/v" ++ version ++
    "/pnpm-linux-$p.tar.gz\" " ++
    "| tar -xz -C /usr/local/bin && pnpm --version"]

/-! ## Steps -/

section
variable (python : Python) (files : Files) (expand : String → String → Except Stop String)

/-- `str` -/
def Python.text (python : Python) (value : Json) : String := value.asStr?.getD (python.str value)

def actionName (step : Fields) : Option String :=
  match getOr step "uses" .null with
  | .null => none
  | uses => some (strip (.ofList ((python.text uses).toList.takeWhile (· ≠ '@'))))

def isSetupAction (step : Fields) : Bool := (actionName python step).any setupActions.contains

/-- `_input`, of one name. -/
def input (inputs : Fields) (name : String) : Except Stop (Option String) :=
  match getOr inputs name .null with
  | .null => .ok none
  | value =>
    let text := strip (python.text value)
    if text = "" then .ok none
    else if hasInfix text "$\x7b\x7b" then (expand text name).map fun expanded => some (strip expanded)
    else .ok (some text)

def unsupported {α : Type} (message : String) : Except Stop α := .error (.unsupported message)

/-- What a version that passed its check installs: its commands, without the leading `v`s. -/
def installed (commands : String → List String) (version : String) : List String :=
  commands (.ofList (version.toList.dropWhile (· = 'v')))

def goVersionFile : Option String → Except Stop (Option String)
  | none => .ok none
  | some path =>
    match files.versionFile path with
    | .error why => unsupported s!"actions/setup-go reads go-version-file '{path}', which {why}"
    | .ok text =>
      match (goDirective text.toList).orElse fun _ => plainLine text.toList with
      | some version => .ok (some version)
      | none => unsupported s!"actions/setup-go reads go-version-file '{path}', which names no Go version"

/-- The version that a step names, or else the file that it names. -/
def goVersion (inputs : Fields) : Except Stop (Option String) := do
  match ← input python expand inputs "go-version" with
  | some version => .ok (some version)
  | none => goVersionFile files (← input python expand inputs "go-version-file")

def goToolchain (inputs : Fields) : Except Stop (List String) := do
  match ← goVersion python files expand inputs with
  | none => unsupported "actions/setup-go sets no go-version, and no go-version-file names one either"
  | some version =>
    if exactVersion version then .ok (installed goCommands version)
    else unsupported s!"actions/setup-go pins go-version '{version}', which names no release"

def nodeToolchain (inputs : Fields) : Except Stop (List String) := do
  match ← input python expand inputs "node-version" with
  | none => unsupported "actions/setup-node sets no node-version"
  | some version =>
    if releaseLine version then .ok (installed nodeCommands version)
    else unsupported s!"actions/setup-node pins node-version '{version}', which names no release line"

def pythonToolchain (inputs : Fields) : Except Stop (List String) := do
  match ← input python expand inputs "python-version" with
  | none => unsupported "actions/setup-python sets no python-version"
  | some version =>
    if !pythonVersion version then unsupported s!"actions/setup-python pins python-version '{version}', which names no release line"
    else if !pythonLine version then unsupported s!"actions/setup-python pins python-version '{version}', which names a patch release"
    else .ok (pythonCommands version)

def packageManager : Option String :=
  files.packageManager.bind fun declared =>
  packageManagerVersion (if declared.truthy then python.text declared else "")

/-- `_pnpm`, whose version may not be an expression. -/
def pnpmToolchain (inputs : Fields) : Except Stop (List String) := do
  let given ← input python
    (fun _ name => unsupported s!"input '{name}' reads an expression this run cannot resolve")
    inputs "version"
  match (given.filter (· ≠ "")).orElse fun _ => packageManager python files with
  | none => unsupported "pnpm/action-setup sets no version, and no packageManager field names one either"
  | some version =>
    if pnpmVersion version then .ok (pnpmCommands version)
    else unsupported s!"pnpm/action-setup pins version '{version}', which names no release"

/-- The input of a setup action that nothing here applies. -/
def unknownInput (name : String) (inputs : Fields) : Option String :=
  (inputs.map Prod.fst).find? fun key =>
    !((versionInputs.lookup name).getD []).contains key &&
      !(cacheInputs.contains key && cacheActions.contains name)

def inputsOf (step : Fields) : Fields :=
  match getOr step "with" .null with
  | .obj inputs => inputs
  | _ => []

def installOf (name : String) (inputs : Fields) : Except Stop (List String) :=
  if name = "actions/setup-go" then goToolchain python files expand inputs
  else if name = "actions/setup-node" then nodeToolchain python expand inputs
  else if name = "actions/setup-python" then pythonToolchain python expand inputs
  else pnpmToolchain python files inputs

/-- `toolchain_for`: the commands of the install a step asks for, none where it names no setup action. -/
def toolchainFor (step : Fields) : Except Stop (Option (List String)) :=
  match (actionName python step).filter setupActions.contains with
  | none => .ok none
  | some name =>
    match unknownInput name (inputsOf step) with
    | some key => unsupported s!"{name} sets input '{key}', which Cindral does not apply"
    | none => (installOf python files expand name (inputsOf step)).map some

end

/-! ## What reaches a command -/

/-- A version of which a shell reads nothing but itself. -/
def plainVersion (version : String) : Prop :=
  ∀ c ∈ version.toList, isDecimal c = true ∨ suffixChar c = true

section
variable (python : Python) (files : Files) (fills : String → String → Prop)

/-- A step sets an input to this text. -/
def Sets (inputs : Fields) (name text : String) : Prop :=
  getOr inputs name .null ≠ .null ∧ text = strip (python.text (getOr inputs name .null)) ∧ text ≠ ""

/-- What an input of a step says, once its expressions are filled in. -/
inductive States (inputs : Fields) (name : String) : String → Prop where
  | plain {text : String} (sets : Sets python inputs name text)
      (bare : hasInfix text "$\x7b\x7b" = false) : States inputs name text
  | filled {text value : String} (sets : Sets python inputs name text)
      (reads : hasInfix text "$\x7b\x7b" = true)
      (filled : fills text value) : States inputs name (strip value)

/-- The version of Go that a step asks for, itself or through a file that it names. -/
def AsksGo (inputs : Fields) (version : String) : Prop :=
  States python fills inputs "go-version" version ∨ ∃ path text, States python fills inputs
    "go-version-file" path ∧
    files.versionFile path = .ok text ∧ (goDirective text.toList).orElse
    (fun _ => plainLine text.toList) = some version

/-- The version of pnpm that a step asks for, in plain words, or else the repository. -/
def AsksPnpm (inputs : Fields) (version : String) : Prop :=
  States python (fun _ _ => False) inputs "version" version ∨ packageManager python files = some version

/-- What the action of a step installs: fixed commands around the version that is asked for, which
is a plain one. -/
inductive Installs (step : Fields) : List String → Prop where
  | go {version : String} (named : actionName python step = some "actions/setup-go")
      (asks : AsksGo python files fills (inputsOf step) version) (plain : plainVersion version) :
      Installs step (installed goCommands version)
  | node {version : String} (named : actionName python step = some "actions/setup-node")
      (asks : States python fills (inputsOf step) "node-version" version) (plain : plainVersion version) :
      Installs step (installed nodeCommands version)
  | python {version : String} (named : actionName python step = some "actions/setup-python")
      (asks : States python fills (inputsOf step) "python-version" version)
      (plain : plainVersion version) :
      Installs step (pythonCommands version)
  | pnpm {version : String} (named : actionName python step = some "pnpm/action-setup")
      (asks : AsksPnpm python files (inputsOf step) version) (plain : plainVersion version) :
      Installs step (pnpmCommands version)

end

theorem suffixChar_point : suffixChar '.' = true := rfl

/-- Digits between points. -/
theorem plain_of_parts {cs : List Char} (parts : (cs.splitOn '.').all digits = true) {c : Char}
    (member : c ∈ cs) :
    isDecimal c = true ∨ suffixChar c = true := by
  by_cases point : c = '.'
  · rw [point]
    exact .inr suffixChar_point
  · have kept : (c == '.') = false := beq_eq_false_iff_ne.mpr point
    obtain ⟨part, inside, there⟩ := mem_splitOnP (p := (· == '.')) member kept
    have read := List.all_eq_true.mp parts part inside
    rw [digits, Bool.and_eq_true] at read
    exact .inl (List.all_eq_true.mp read.2 c there)

theorem plainVersion_exact {version : String} (exact : exactVersion version = true) :
    plainVersion version := by
  intro c member
  have parts {cs : List Char} (same : withoutV version.toList = cs) (inside : c ∈ cs) :
      isDecimal c = true ∨ suffixChar c = true :=
    plain_of_parts exact (same ▸ inside)
  unfold withoutV at parts
  split at parts
  · rename_i rest leads
    rw [leads] at member
    rcases List.mem_cons.mp member with rfl | inside
    · exact .inr rfl
    · exact parts rfl inside
  · exact parts rfl member

theorem plainVersion_python {version : String} (line : pythonLine version = true) :
    plainVersion version := by
  unfold pythonLine at line
  split at line
  · rename_i minor split
    intro c member
    refine plain_of_parts ?_ member
    rw [split]
    simp only [List.all_cons, List.all_nil, line, Bool.and_true]
    rfl
  · cases line

theorem plainVersion_pnpm {version : String} (release : pnpmVersion version = true) :
    plainVersion version := by
  simp only [pnpmVersion, Bool.and_eq_true, Bool.or_eq_true, decide_eq_true_eq] at release
  obtain ⟨⟨-, core⟩, suffix⟩ := release
  intro c member
  rw [← List.takeWhile_append_dropWhile (p := (!startsSuffix ·)) (l := version.toList)] at member
  rcases List.mem_append.mp member with inside | after
  · exact plain_of_parts core inside
  · rcases suffix with none | ⟨-, suffix⟩
    · rw [none] at after
      cases after
    · obtain ⟨first, rest, split⟩ := List.exists_cons_of_ne_nil (List.ne_nil_of_mem after)
      have starts : startsSuffix first = true := by
        have head := List.head?_dropWhile_not (!startsSuffix ·) version.toList
        rw [split] at head
        simpa using head
      rw [split] at after suffix
      rcases List.mem_cons.mp after with rfl | later
      · refine .inr ?_
        simp only [startsSuffix, Bool.or_eq_true, decide_eq_true_eq] at starts
        rcases starts with rfl | rfl
        · rfl
        · rfl
      · exact .inr (List.all_eq_true.mp suffix c later)

section
variable {python : Python} {files : Files} {expand : String → String → Except Stop String}
    {fills : String → String → Prop}
  {step inputs : Fields} {commands : List String} {name version : String}

theorem input_states (filled : ∀ text value, expand text name = .ok value → fills text value)
    (h : input python expand inputs name = .ok (some version)) :
    States python fills inputs name version := by
  unfold input at h
  split at h
  · cases h
  · rename_i given
    have sets (words : strip (python.text (getOr inputs name .null)) ≠ "") :
        Sets python inputs name (strip (python.text (getOr inputs name .null))) := ⟨given, rfl, words⟩
    dsimp only at h
    split at h
    · cases h
    · rename_i words
      split at h
      · rename_i reads
        obtain ⟨value, expands, same⟩ := map_ok h
        obtain rfl := Option.some.inj same
        exact .filled (sets words) reads (filled _ _ expands)
      · rename_i bare
        obtain rfl := Option.some.inj (Except.ok.inj h)
        exact .plain (sets words) (Bool.eq_false_of_not_eq_true bare)

theorem goVersion_asks (filled : ∀ text name value, expand text name = .ok value → fills text value)
    (h : goVersion python files expand inputs = .ok (some version)) :
    AsksGo python files fills inputs version := by
  obtain ⟨given, said, h⟩ := bind_ok h
  cases given with
  | some given =>
    obtain rfl := Option.some.inj (Except.ok.inj h)
    exact .inl (input_states (filled · _) said)
  | none =>
    obtain ⟨path, named, h⟩ := bind_ok h
    unfold goVersionFile at h
    split at h
    · cases h
    · split at h
      · cases h
      · rename_i text read
        split at h
        · rename_i found names
          obtain rfl := Option.some.inj (Except.ok.inj h)
          exact .inr ⟨_, text, input_states (filled · _) named, read, names⟩
        · cases h

theorem goToolchain_installs (named : actionName python step = some "actions/setup-go")
    (filled : ∀ text name value, expand text name = .ok value → fills text value)
    (h : goToolchain python files expand (inputsOf step) = .ok commands) :
    Installs python files fills step commands := by
  obtain ⟨version, asked, h⟩ := bind_ok h
  split at h
  · cases h
  · split at h
    · rename_i exact
      obtain rfl := Except.ok.inj h
      exact .go named (goVersion_asks filled asked) (plainVersion_exact exact)
    · cases h

theorem nodeToolchain_installs (named : actionName python step = some "actions/setup-node")
    (filled : ∀ text name value, expand text name = .ok value → fills text value)
    (h : nodeToolchain python expand (inputsOf step) = .ok commands) :
    Installs python files fills step commands := by
  obtain ⟨version, said, h⟩ := bind_ok h
  split at h
  · cases h
  · split at h
    · rename_i line
      obtain rfl := Except.ok.inj h
      rw [releaseLine, Bool.and_eq_true] at line
      exact .node named (input_states (filled · _) said) (plainVersion_exact line.1)
    · cases h

theorem pythonToolchain_installs (named : actionName python step = some "actions/setup-python")
    (filled : ∀ text name value, expand text name = .ok value → fills text value)
    (h : pythonToolchain python expand (inputsOf step) = .ok commands) :
    Installs python files fills step commands := by
  obtain ⟨version, said, h⟩ := bind_ok h
  split at h
  · cases h
  · split at h
    · cases h
    · split at h
      · cases h
      · rename_i line
        obtain rfl := Except.ok.inj h
        exact .python named (input_states (filled · _) said) (plainVersion_python (by simpa using line))

theorem pnpmToolchain_installs (named : actionName python step = some "pnpm/action-setup")
    (h : pnpmToolchain python files (inputsOf step) = .ok commands) :
    Installs python files fills step commands := by
  obtain ⟨given, said, h⟩ := bind_ok h
  split at h
  · cases h
  · rename_i version asked
    split at h
    · rename_i release
      obtain rfl := Except.ok.inj h
      refine .pnpm named ?_ (plainVersion_pnpm release)
      cases own : given.filter (· ≠ "") with
      | none =>
        rw [own] at asked
        exact .inr asked
      | some text =>
        rw [own] at asked
        obtain rfl := Option.some.inj asked
        obtain ⟨rfl, -⟩ := Option.filter_eq_some_iff.mp own
        exact .inl (input_states (fun _ _ raised => by cases raised) said)
    · cases h

theorem installOf_installs (named : actionName python step = some name) (setup : name ∈ setupActions)
    (filled : ∀ text name value, expand text name = .ok value → fills text value)
    (h : installOf python files expand name (inputsOf step) = .ok commands) :
    Installs python files fills step commands := by
  unfold installOf at h
  split at h
  · rename_i go
    exact goToolchain_installs (go ▸ named) filled h
  · rename_i not_go
    split at h
    · rename_i node
      exact nodeToolchain_installs (node ▸ named) filled h
    · rename_i not_node
      split at h
      · rename_i python_
        exact pythonToolchain_installs (python_ ▸ named) filled h
      · rename_i not_python
        have pnpm : name = "pnpm/action-setup" := by
          simpa [setupActions, versionInputs, not_go, not_node, not_python] using setup
        exact pnpmToolchain_installs (pnpm ▸ named) h

theorem toolchainFor_isSome {step : Fields} {found : Option (List String)}
    (h : toolchainFor python files expand step = .ok found) :
    isSetupAction python step = found.isSome := by
  unfold toolchainFor at h
  unfold isSetupAction
  split at h
  · rename_i other
    obtain rfl := Except.ok.inj h
    rw [Option.isSome_none, Option.any_eq_false]
    exact fun name named => by simpa [named] using other
  · rename_i name named
    obtain ⟨same, setup⟩ := Option.filter_eq_some_iff.mp named
    split at h
    · cases h
    · obtain ⟨commands, -, rfl⟩ := map_ok h
      rw [same]
      exact setup

/-- An install runs what the action of the step installs, at the version it asks for. -/
theorem toolchainFor_installs (filled : ∀ text name value, expand text name = .ok value →
    fills text value)
    (h : toolchainFor python files expand step = .ok (some commands)) :
    Installs python files fills step commands := by
  unfold toolchainFor at h
  split at h
  · cases h
  · rename_i name named
    obtain ⟨named, setup⟩ := Option.filter_eq_some_iff.mp named
    split at h
    · cases h
    · obtain ⟨found, installed, same⟩ := map_ok h
      obtain rfl := Option.some.inj same
      exact installOf_installs named (List.contains_iff_mem.mp setup) filled installed

end
end Cindral.Actions
