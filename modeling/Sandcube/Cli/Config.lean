import Sandcube.Path.Resolve
import Sandcube.Table.Basic

/-!
# The configuration of the command line

`config.cr`: what `Config#validate` tests of the directories of a host.  `path!` expands a path
before it looks for the system directories, but `validate` drops its result and compares the
spellings; `validate_separate_iff` says what the comparison is worth.
-/

namespace Sandcube.Cli

open Sandcube.Path (resolved rooted Clean clean_resolved resolved_rooted rooted_append_isPrefix_iff)

abbrev Chars := List Char

/-- `raise e if p` -/
def refuse {ε : Type} (p : Prop) [Decidable p] (e : ε) : Except ε Unit :=
  if p then .error e else .ok ()

section Except

variable {ε α β : Type}

theorem bind_eq_ok {x : Except ε α} {f : α → Except ε β} {b : β} :
    (x >>= f) = .ok b ↔ ∃ a, x = .ok a ∧ f a = .ok b := by
  cases x with
  | error e =>
    constructor
    · exact fun h => nomatch h
    · rintro ⟨_, h, -⟩
      cases h
  | ok a =>
    constructor
    · exact fun h => ⟨a, rfl, h⟩
    · rintro ⟨_, ha, h⟩
      cases ha
      exact h

theorem refuse_eq_ok {p : Prop} [Decidable p] {e : ε} {u : Unit} :
    refuse p e = .ok u ↔ ¬ p := by
  unfold refuse
  split_ifs with hp
  · simp [hp]
  · exact ⟨fun _ => hp, fun _ => rfl⟩

end Except

/-! ### Numbers -/

/-- `Char#ascii_whitespace?` -/
def isBlank (c : Char) : Bool := c = ' ' || (9 ≤ c.toNat && c.toNat ≤ 13)

/-- The digits after the sign, with blanks behind them. -/
def unsigned? (text : Chars) : Option ℕ :=
  let digits := text.takeWhile Char.isDigit
  if digits ≠ [] ∧ (text.dropWhile Char.isDigit).all isBlank then
    some (digits.foldl (fun n c => n * 10 + (c.toNat - 48)) 0)
  else none

/-- `String#to_i?` of a signed type with so many bits. -/
def toInt? (bits : ℕ) (text : Chars) : Option ℤ :=
  let value : Option ℤ := match text.dropWhile isBlank with
    | '-' :: digits => (unsigned? digits).map fun n => -(n : ℤ)
    | '+' :: digits => (unsigned? digits).map Int.ofNat
    | digits => (unsigned? digits).map Int.ofNat
  value.filter fun n => -2 ^ (bits - 1) ≤ n ∧ n < 2 ^ (bits - 1)

/-! ### Paths -/

/-- A character that a configured path may have. -/
def pathChar (c : Char) : Bool :=
  c.isAlphanum || c = '/' || c = '_' || c = '.' || c = '-'

/-- The directories from the root to a path, by its text alone. -/
def components (path : Chars) : List Chars := resolved '/' '.' path

/-- The one spelling of a path without `.`, `..` and needless separators. -/
def normalPath (path : Chars) : Chars := rooted '/' (components path)

/-- `File.expand_path` of an absolute path.  `keep` says whether the library leaves a separator at
the end; nothing below depends on it. -/
def expandPath (keep : Bool) (path : Chars) : Chars :=
  if keep = true ∧ path.getLast? = some '/' ∧ components path ≠ [] then normalPath path ++ ['/']
  else normalPath path

/-- The directories that are not dedicated. -/
def systemDirectories : List Chars :=
  [['/'], "/var".toList, "/var/lib".toList, "/run".toList, "/mnt".toList, "/etc".toList,
    "/usr".toList, "/root".toList]

structure Config where
  values : Table String Chars

namespace Config

/-- `[]` -/
def get (c : Config) (key : String) : Except String Chars :=
  match c.values.find? key with
  | some value => .ok value
  | none => .error ("Missing " ++ key ++ "; run sandcube init")

def dataKey : String := "SANDCUBE_DATA_DIR"

def runKey : String := "SANDCUBE_RUN_DIR"

def imageKey : String := "SANDCUBE_STORAGE_IMAGE"

def capacityKeys : List String :=
  ["SANDCUBE_CAPACITY_CPU", "SANDCUBE_CAPACITY_MEMORY_MB", "SANDCUBE_CAPACITY_DISK_MB"]

section Validate

variable (keep : Bool) (ipValid : Chars → Bool)

/-- `path!` -/
def path! (path : Chars) : Except String Chars := do
  refuse (¬ (path.head? = some '/' ∧ path.tail ≠ [] ∧ path.tail.all pathChar))
    "Use an absolute path containing only letters, digits, /, _, - and ."
  let path := expandPath keep path
  refuse (path ∈ systemDirectories) "A dedicated directory is required"
  return path

/-- The tests of the storage image. -/
def validateImage (c : Config) (data : Chars) : Except String Unit :=
  match c.values.find? imageKey with
  | none => .ok ()
  | some image => do
    let _ ← path! keep image
    refuse (data ++ ['/'] <+: image) "Storage image must be outside its mount"

/-- The tests of one budget. -/
def validateCapacity (c : Config) (key : String) : Except String Unit := do
  let value ← c.get key
  refuse ((toInt? 64 value).any (0 < ·) = false) (key ++ " must be positive")

/-- `validate` -/
def validate (c : Config) : Except String Unit := do
  refuse (c.values.find? "DATABASE_URL").isSome
    ("Legacy PostgreSQL configuration: export or retire existing sandboxes, then run init with " ++
      "a fresh config and data directory (see docs/installation.md)")
  let data ← c.get dataKey
  let _ ← path! keep data
  let run ← c.get runKey
  let _ ← path! keep run
  refuse (60 < (run.map Char.utf8Size).sum)
    "Runtime directory is too long for Unix sockets (maximum 60 bytes)"
  refuse (data = run ∨ run ++ ['/'] <+: data ∨ data ++ ['/'] <+: run)
    "Data and runtime directories must be separate"
  validateImage keep c data
  capacityKeys.forM (validateCapacity c)
  let port ← c.get "SANDCUBE_PORT"
  refuse ((toInt? 32 port).any (fun n => 1 ≤ n ∧ n ≤ 65535) = false) "Invalid port"
  let host ← c.get "SANDCUBE_HOST"
  refuse (ipValid host = false) "Host must be a numeric IP address"
  c.values.rows.forM fun row =>
    refuse (row.2.any fun ch => ch.toNat < 32) "Configuration cannot contain control characters"

/-- What `File.info` says of the file, links not followed. -/
structure FileInfo where
  regular : Bool
  ownerId : ℕ
  permissions : ℕ

/-- A line of the file. -/
def readLine (fromJson : Chars → Except String Chars) (values : Table String Chars)
    (line : Chars) : Except String (Table String Chars) :=
  if line = [] ∨ line.head? = some '#' then .ok values
  else do
    let key := line.takeWhile (· ≠ '=')
    let raw := (line.dropWhile (· ≠ '=')).tail
    let named := key.head?.any Char.isUpper &&
      key.all fun ch => ch.isUpper || ch.isDigit || ch = '_'
    refuse (¬ (named = true ∧ values.find? (String.ofList key) = none)) "Invalid config key"
    let value ← fromJson raw
    return values.put (String.ofList key) value

/-- `load` -/
def load (fromJson : Chars → Except String Chars) (path : String) (info : FileInfo)
    (lines : List Chars) : Except String Config := do
  refuse (¬ (info.regular = true ∧ info.ownerId = 0 ∧ info.permissions = 0o600))
    ("Config must be a root-owned regular file with mode 0600: " ++ path)
  let values ← lines.foldlM (readLine fromJson) .empty
  let config : Config := ⟨values⟩
  validate keep ipValid config
  return config

end Validate

/-! ### Separate directories -/

/-- After normalization neither directory contains the other, neither is one of the system's, and
the image does not lie inside the data directory. -/
structure Separate (c : Config) : Prop where
  apart : ∀ data run, c.values.find? dataKey = some data → c.values.find? runKey = some run →
    ¬ components data <+: components run ∧ ¬ components run <+: components data
  dedicated : ∀ key ∈ [dataKey, runKey], ∀ path, c.values.find? key = some path →
    components path ∉ systemDirectories.map components
  image : ∀ data image, c.values.find? dataKey = some data → c.values.find? imageKey = some image →
    ¬ (components data <+: components image ∧ components data ≠ components image)

/-- The tests that `validate` makes of the two directories and of the place of the image. -/
structure Tested (keep : Bool) (c : Config) (data run : Chars) : Prop where
  dataSet : c.values.find? dataKey = some data
  runSet : c.values.find? runKey = some run
  dataPath : ∃ path, path! keep data = .ok path
  runPath : ∃ path, path! keep run = .ok path
  apart : ¬ (data = run ∨ run ++ ['/'] <+: data ∨ data ++ ['/'] <+: run)
  image : ∀ image, c.values.find? imageKey = some image → ¬ data ++ ['/'] <+: image

/-- The configuration with its paths in their normal spelling. -/
def normalized (c : Config) : Config where
  values := c.values.mapRows fun key value =>
    if key ∈ [dataKey, runKey, imageKey] then normalPath value else value

section Lemmas

variable {keep : Bool} {ipValid : Chars → Bool} {c : Config}

theorem get_eq_ok {key : String} {value : Chars} :
    c.get key = .ok value ↔ c.values.find? key = some value := by
  unfold get
  cases c.values.find? key with
  | none => simp
  | some found =>
    exact ⟨fun h => congrArg some (Except.ok.inj h),
      fun h => congrArg Except.ok (Option.some.inj h)⟩

/-- A configuration that is accepted passes the tests. -/
theorem tested_of_validate (h : c.validate keep ipValid = .ok ()) :
    ∃ data run, Tested keep c data run := by
  unfold validate at h
  obtain ⟨_, -, h⟩ := bind_eq_ok.mp h
  obtain ⟨data, hdata, h⟩ := bind_eq_ok.mp h
  obtain ⟨_, hdataPath, h⟩ := bind_eq_ok.mp h
  obtain ⟨run, hrun, h⟩ := bind_eq_ok.mp h
  obtain ⟨_, hrunPath, h⟩ := bind_eq_ok.mp h
  obtain ⟨_, -, h⟩ := bind_eq_ok.mp h
  obtain ⟨_, hapart, h⟩ := bind_eq_ok.mp h
  obtain ⟨_, himage, -⟩ := bind_eq_ok.mp h
  refine ⟨data, run, get_eq_ok.mp hdata, get_eq_ok.mp hrun, ⟨_, hdataPath⟩, ⟨_, hrunPath⟩,
    refuse_eq_ok.mp hapart, fun image hfind => ?_⟩
  unfold validateImage at himage
  rw [hfind] at himage
  obtain ⟨_, -, himage⟩ := bind_eq_ok.mp himage
  exact refuse_eq_ok.mp himage

theorem validate_of_load {fromJson : Chars → Except String Chars} {path : String}
    {info : FileInfo} {lines : List Chars}
    (h : load keep ipValid fromJson path info lines = .ok c) :
    c.validate keep ipValid = .ok () := by
  unfold load at h
  obtain ⟨_, -, h⟩ := bind_eq_ok.mp h
  obtain ⟨values, -, h⟩ := bind_eq_ok.mp h
  obtain ⟨_, hvalid, h⟩ := bind_eq_ok.mp h
  rw [← Except.ok.inj h]
  exact hvalid

theorem path!_eq_ok {path expanded : Chars} :
    path! keep path = .ok expanded ↔
      (path.head? = some '/' ∧ path.tail ≠ [] ∧ path.tail.all pathChar) ∧
        expandPath keep path ∉ systemDirectories ∧ expandPath keep path = expanded := by
  unfold path!
  rw [bind_eq_ok]
  constructor
  · rintro ⟨_, hform, h⟩
    obtain ⟨_, hsystem, h⟩ := bind_eq_ok.mp h
    exact ⟨not_not.mp (refuse_eq_ok.mp hform), refuse_eq_ok.mp hsystem, Except.ok.inj h⟩
  · rintro ⟨hform, hsystem, h⟩
    refine ⟨(), refuse_eq_ok.mpr (not_not.mpr hform), bind_eq_ok.mpr ⟨(), ?_, ?_⟩⟩
    · exact refuse_eq_ok.mpr hsystem
    · exact congrArg Except.ok h

/-! ### Normal spellings -/

theorem clean_components (path : Chars) : Clean '/' '.' (components path) := clean_resolved path

@[simp]
theorem components_normalPath (path : Chars) : components (normalPath path) = components path :=
  resolved_rooted (clean_components path)

@[simp]
theorem normalPath_normalPath (path : Chars) : normalPath (normalPath path) = normalPath path := by
  rw [normalPath, components_normalPath, normalPath]

theorem normalPath_mem_system_iff {path : Chars} :
    normalPath path ∈ systemDirectories ↔ components path ∈ systemDirectories.map components := by
  have hnormal : ∀ directory ∈ systemDirectories, normalPath directory = directory := by
    decide +kernel
  rw [List.mem_map]
  constructor
  · intro h
    exact ⟨normalPath path, h, components_normalPath path⟩
  · rintro ⟨directory, hmem, hsame⟩
    have : normalPath path = directory := by
      rw [← hnormal directory hmem, normalPath, normalPath, hsame]
    rw [this]
    exact hmem

theorem find?_normalized (c : Config) {key : String} (h : key ∈ [dataKey, runKey, imageKey]) :
    c.normalized.values.find? key = (c.values.find? key).map normalPath := by
  unfold normalized
  rw [Table.find?_mapRows]
  simp only [if_pos h]

theorem pathChar_of_mem {path : Chars} {ch : Char}
    (hpath : ∃ expanded, path! keep path = .ok expanded) (h : ch ∈ path) : pathChar ch = true := by
  obtain ⟨expanded, hok⟩ := hpath
  obtain ⟨⟨hhead, -, hall⟩, -⟩ := path!_eq_ok.mp hok
  obtain ⟨rest, rfl⟩ : ∃ rest, path = '/' :: rest := by
    cases path with
    | nil => cases hhead
    | cons first rest => exact ⟨rest, by rw [Option.some.inj hhead]⟩
  rcases List.mem_cons.mp h with rfl | hrest
  · rfl
  · exact List.all_eq_true.mp hall ch hrest

theorem expandPath_normalPath (path : Chars) :
    expandPath keep (normalPath path) = normalPath path := by
  unfold expandPath
  rw [components_normalPath, normalPath_normalPath, if_neg]
  rintro ⟨-, hlast, hne⟩
  exact Path.getLast?_rooted (clean_components path) hne hlast

/-- What `path!` says of a normal spelling. -/
theorem path!_normalPath_iff {path : Chars} (hpath : ∃ expanded, path! keep path = .ok expanded) :
    (∃ expanded, path! keep (normalPath path) = .ok expanded) ↔
      components path ∉ systemDirectories.map components := by
  constructor
  · rintro ⟨expanded, h⟩ hmem
    obtain ⟨-, hsystem, -⟩ := path!_eq_ok.mp h
    rw [expandPath_normalPath] at hsystem
    exact hsystem (normalPath_mem_system_iff.mpr hmem)
  · intro hmem
    refine ⟨_, path!_eq_ok.mpr ⟨⟨rfl, fun hnil => hmem ?_, ?_⟩, ?_, rfl⟩⟩
    · -- the root is one of the system's directories
      have hroot : components path = [] := by
        have hspelling : rooted '/' (components path) = rooted '/' [] := congrArg ('/' :: ·) hnil
        exact Path.rooted_inj (clean_components path) (fun _ h => absurd h List.not_mem_nil)
          hspelling
      rw [hroot]
      decide +kernel
    · rw [List.all_eq_true]
      intro ch hch
      rcases Path.mem_join hch with rfl | ⟨part, hpart, hin⟩
      · rfl
      · exact pathChar_of_mem hpath (Path.mem_of_mem_resolved hpart hin)
    · rw [expandPath_normalPath]
      exact fun h => hmem (normalPath_mem_system_iff.mp h)

/-- A test of `validate` on normal spellings. -/
theorem normalPath_append_isPrefix_iff {path inner : Chars} (h : components path ≠ []) :
    normalPath path ++ ['/'] <+: normalPath inner ↔
      components path <+: components inner ∧ components path ≠ components inner :=
  rooted_append_isPrefix_iff (clean_components path) (clean_components inner) h

theorem normalPath_eq_iff {path path' : Chars} :
    normalPath path = normalPath path' ↔ components path = components path' := by
  constructor
  · exact Path.rooted_inj (clean_components path) (clean_components path')
  · intro h
    rw [normalPath, h, normalPath]

/-- The tests on the normal spellings are about the directories themselves. -/
theorem separate_iff_tested {data run : Chars} (h : Tested keep c data run) :
    Separate c ↔ Tested keep c.normalized (normalPath data) (normalPath run) := by
  have hroot : ([] : List Chars) ∈ systemDirectories.map components := by decide +kernel
  have hdata := find?_normalized c (show dataKey ∈ _ by simp)
  have hrun := find?_normalized c (show runKey ∈ _ by simp)
  have himage := find?_normalized c (show imageKey ∈ _ by simp)
  rw [h.dataSet] at hdata
  rw [h.runSet] at hrun
  constructor
  · intro hseparate
    have hdedicated := hseparate.dedicated
    have hD : components data ∉ systemDirectories.map components :=
      hdedicated dataKey (by simp) data h.dataSet
    have hR : components run ∉ systemDirectories.map components :=
      hdedicated runKey (by simp) run h.runSet
    have hD' : components data ≠ [] := fun hnil => hD (hnil ▸ hroot)
    have hR' : components run ≠ [] := fun hnil => hR (hnil ▸ hroot)
    obtain ⟨hdr, hrd⟩ := hseparate.apart data run h.dataSet h.runSet
    refine ⟨hdata, hrun, (path!_normalPath_iff h.dataPath).mpr hD,
      (path!_normalPath_iff h.runPath).mpr hR, ?_, ?_⟩
    · rintro (hsame | hin | hin)
      · exact hdr (normalPath_eq_iff.mp hsame ▸ List.prefix_rfl)
      · exact hrd ((normalPath_append_isPrefix_iff hR').mp hin).1
      · exact hdr ((normalPath_append_isPrefix_iff hD').mp hin).1
    · intro spelling hspelling hin
      rw [himage, Option.map_eq_some_iff] at hspelling
      obtain ⟨image, hset, rfl⟩ := hspelling
      exact hseparate.image data image h.dataSet hset ((normalPath_append_isPrefix_iff hD').mp hin)
  · intro htested
    have hD := (path!_normalPath_iff h.dataPath).mp htested.dataPath
    have hR := (path!_normalPath_iff h.runPath).mp htested.runPath
    have hD' : components data ≠ [] := fun hnil => hD (hnil ▸ hroot)
    have hR' : components run ≠ [] := fun hnil => hR (hnil ▸ hroot)
    obtain ⟨hne, hrd, hdr⟩ : normalPath data ≠ normalPath run ∧
        ¬ normalPath run ++ ['/'] <+: normalPath data ∧
        ¬ normalPath data ++ ['/'] <+: normalPath run := by
      simpa only [not_or] using htested.apart
    rw [normalPath_append_isPrefix_iff hR'] at hrd
    rw [normalPath_append_isPrefix_iff hD'] at hdr
    rw [Ne, normalPath_eq_iff] at hne
    refine ⟨?_, ?_, ?_⟩
    · intro data' run' hdata' hrun'
      cases h.dataSet.symm.trans hdata'
      cases h.runSet.symm.trans hrun'
      exact ⟨fun hin => hdr ⟨hin, hne⟩, fun hin => hrd ⟨hin, fun he => hne he.symm⟩⟩
    · intro key hkey path hpath
      rcases List.mem_pair.mp hkey with rfl | rfl
      · cases h.dataSet.symm.trans hpath
        exact hD
      · cases h.runSet.symm.trans hpath
        exact hR
    · intro data' image hdata' hset hin
      cases h.dataSet.symm.trans hdata'
      refine htested.image (normalPath image) ?_ ((normalPath_append_isPrefix_iff hD').mpr hin)
      rw [himage, hset]
      rfl

end Lemmas

/-- A configuration with the two directories as written. -/
def sample (data run : String) : Config where
  values :=
    { rows := [(dataKey, data.toList), (runKey, run.toList),
        ("SANDCUBE_CAPACITY_CPU", "4".toList), ("SANDCUBE_CAPACITY_MEMORY_MB", "8192".toList),
        ("SANDCUBE_CAPACITY_DISK_MB", "10240".toList), ("SANDCUBE_PORT", "7432".toList),
        ("SANDCUBE_HOST", "127.0.0.1".toList)]
      nodup := by simp [dataKey, runKey] }

/-- `Socket::IPAddress.valid?` as far as the samples go. -/
def loopback (host : Chars) : Bool := host = "127.0.0.1".toList

end Config

end Sandcube.Cli
