import Sandcube.Cli.Bundle
import Sandcube.Prog.Does

/-!
# The extraction of a bundle

`Bundle#extract` puts the payloads of a bundle into a directory that is private to its owner.  A
payload is written under a temporary name, and gets its own name only after its digest has been
compared; a payload that is there already is compared as well.

Every system call may fail, and the process may be killed between any two of them.
-/

namespace Sandcube.Cli

open Prog (raise when forEach ensuring Does)

/-! ### Files -/

/-- A path from the root, its last component first. -/
abbrev Path := List String

/-- The text of a path. -/
def Path.text (path : Path) : String := "/" ++ String.intercalate "/" path.reverse

inductive Node where
  | file (owner mode : ℕ) (bytes : Bytes)
  | directory (owner mode : ℕ)
  | symlink
  | other

abbrev Nodes := Table Path Node

/-- What the environment decides for a call. -/
structure Env where
  /-- The error of the call. -/
  fault : Option String := none
  /-- The random part of a temporary name. -/
  draw : String := ""
  /-- How far a copy had got that failed. -/
  copied : ℕ := 0

instance : Inhabited Env := ⟨{}⟩

abbrev Op := Prog Nodes Env Failure

/-- A system call that does nothing when it fails. -/
def call {α : Type} (f : Nodes → Except Failure α × Nodes) : Op α :=
  Prog.atomic fun env nodes =>
    match env.fault with
    | some error => (.error (.system error), nodes)
    | none => f nodes

/-- `File.exists?(path) || File.symlink?(path)` -/
def present (path : Path) : Op Bool := call fun nodes => (.ok (nodes.find? path).isSome, nodes)

/-- `File.info(path, follow_symlinks: false)` -/
def info (path : Path) : Op Node := call fun nodes =>
  match nodes.find? path with
  | some node => (.ok node, nodes)
  | none => (.error (.system "No such file or directory"), nodes)

/-- `File.chmod` -/
def chmod (path : Path) (mode : ℕ) : Op Unit := call fun nodes =>
  (.ok (), nodes.modify path fun node =>
    match node with
    | .file owner _ bytes => .file owner mode bytes
    | .directory owner _ => .directory owner mode
    | node => node)

/-- `Dir.mkdir` -/
def mkdir (euid : ℕ) (path : Path) (mode : ℕ) : Op Unit := call fun nodes =>
  match nodes.find? path with
  | some _ => (.error (.system "File exists"), nodes)
  | none => (.ok (), nodes.put path (.directory euid mode))

/-- `File.tempfile(".payload-", dir: dir)` -/
def tempfile (euid : ℕ) (dir : Path) : Op Path := Prog.atomic fun env nodes =>
  let path := (".payload-" ++ env.draw) :: dir
  match env.fault with
  | some error => (.error (.system error), nodes)
  | none =>
    match nodes.find? path with
    | some _ => (.error (.system "File exists"), nodes)
    | none => (.ok path, nodes.put path (.file euid 0o600 []))

/-- `IO.copy` to a file that was just created; returns the number of bytes. -/
def copy (bytes : Bytes) (target : Path) : Op ℕ := Prog.atomic fun env nodes =>
  let write (bytes : Bytes) (node : Node) : Node :=
    match node with
    | .file owner mode before => .file owner mode (before ++ bytes)
    | node => node
  match env.fault with
  | some error => (.error (.system error), nodes.modify target (write (bytes.take env.copied)))
  | none => (.ok bytes.length, nodes.modify target (write bytes))

/-- `flush`, `fsync`, `close` -/
def sync : Op Unit := call fun nodes => (.ok (), nodes)

/-- `File.link` -/
def link (target destination : Path) : Op Unit := call fun nodes =>
  match nodes.find? destination, nodes.find? target with
  | some _, _ => (.error (.system "File exists"), nodes)
  | none, none => (.error (.system "No such file or directory"), nodes)
  | none, some node => (.ok (), nodes.put destination node)

/-- `File.delete` -/
def delete (path : Path) : Op Unit := call fun nodes =>
  match nodes.find? path with
  | some _ => (.ok (), nodes.erase path)
  | none => (.error (.system "No such file or directory"), nodes)

/-- `Bundle.checksum` -/
def checksum (sha : Sha256) (path : Path) : Op String := call fun nodes =>
  match nodes.find? path with
  | some (.file _ _ bytes) => (.ok (sha.hex bytes), nodes)
  | _ => (.error (.system "No such file or directory"), nodes)

/-! ### Private directories -/

/-- A directory that only its owner may write, who is one of these. -/
def Node.safe (owners : List ℕ) : Node → Bool
  | .directory owner mode => decide (owner ∈ owners) && mode &&& 0o022 = 0
  | _ => false

/-- The test of one directory on the way. -/
def checkParent (euid : ℕ) (path : Path) : Op Unit := do
  let node ← info path
  when (node.safe [0, euid] = false) (raise (.raised ("Unsafe parent directory: " ++ path.text)))

/-- `private_parent` -/
def privateParent (euid : ℕ) : Path → Op Unit
  | [] => checkParent euid []
  | name :: parent => do
    checkParent euid (name :: parent)
    privateParent euid parent

/-- `private_dir` -/
def privateDir (euid : ℕ) (path : Path) : Op Unit := do
  when (path ≠ []) (privateParent euid path.tail)
  let there ← present path
  when (there = false) (mkdir euid path 0o700)
  let node ← info path
  when (node.safe [euid] = false) (raise (.raised ("Unsafe directory: " ++ path.text)))
  chmod path 0o700

/-! ### Extraction -/

section Extract

variable (sha : Sha256) (euid : ℕ) (source : Bytes)
variable {nodes nodes' : Nodes} {e : Entry} {path target : Path}

/-- A payload that is there already. -/
def reuse (entry : Entry) (destination : Path) : Op Unit := do
  let node ← info destination
  let safe := match node with
    | .file owner mode _ => decide (owner = euid ∧ mode = 0o700)
    | _ => false
  when (safe = false) (raise (.raised ("Unsafe extracted payload: " ++ destination.text)))
  let digest ← checksum sha destination
  when (digest ≠ entry.sha256) (raise (.raised ("Checksum mismatch: " ++ destination.text)))

/-- A payload in a temporary file, which then gets its name. -/
def publish (entry : Entry) (target destination : Path) : Op Unit := do
  let copied ← copy (entry.slice source) target
  when ((copied : ℤ) ≠ entry.size) (raise (.raised "Truncated payload"))
  sync
  sync
  let digest ← checksum sha target
  when (digest ≠ entry.sha256) (raise (.raised ("Checksum mismatch for " ++ entry.name)))
  chmod target 0o700
  link target destination

/-- The turn of one entry. -/
def extractEntry (dir : Path) (entry : Entry) : Op Unit := do
  let destination := entry.name :: dir
  let there ← present destination
  if there then reuse sha euid entry destination
  else
    let target ← tempfile euid dir
    ensuring (publish sha source entry target destination) (do sync; delete target)

/-- The directory of a release. -/
def releaseDir (m : Manifest) (dataDir : Path) : Path :=
  (m.version ++ "-" ++ String.ofList ((sha.hex m.toText).toList.take 16)) :: "bin" :: dataDir

/-- `extract` -/
def extract (m : Manifest) (dataDir : Path) : Op Path := do
  privateDir euid ("bin" :: dataDir)
  privateDir euid (releaseDir sha m dataDir)
  forEach m.entries (extractEntry sha euid source (releaseDir sha m dataDir))
  return releaseDir sha m dataDir

end Extract

/-! ### What a payload path can become -/

section Published

variable {sha : Sha256} {euid : ℕ} {source : Bytes} {dir : Path} {entries : List Entry}

/-- The path of the entry holds bytes with the digest of the manifest. -/
def Published (sha : Sha256) (euid : ℕ) (dir : Path) (e : Entry) (nodes : Nodes) : Prop :=
  ∃ bytes, nodes.find? (e.name :: dir) = some (.file euid 0o700 bytes) ∧ sha.hex bytes = e.sha256

/-- The paths that an extraction works on, beside those of the payloads: its two directories and the
temporary files. -/
def Working (dir path : Path) : Prop :=
  path = dir ∨ path = dir.tail ∨ ∃ draw, path = (".payload-" ++ draw) :: dir

/-- A payload path keeps what it has, or is new and holds what the manifest says; nothing else
changes but what the extraction works on. -/
structure Kept (sha : Sha256) (euid : ℕ) (dir : Path) (entries : List Entry)
    (nodes nodes' : Nodes) : Prop where
  payloads : ∀ e ∈ entries, nodes'.find? (e.name :: dir) = nodes.find? (e.name :: dir) ∨
    nodes.find? (e.name :: dir) = none ∧ Published sha euid dir e nodes'
  elsewhere : ∀ path, (∀ e ∈ entries, e.name :: dir ≠ path) → ¬ Working dir path →
    nodes'.find? path = nodes.find? path

/-- A path to work on that is none of the payloads'. -/
structure Aside (dir : Path) (entries : List Entry) (path : Path) : Prop where
  other : ∀ e ∈ entries, e.name :: dir ≠ path
  working : Working dir path

theorem Kept.published (h : Kept sha euid dir entries nodes nodes') (he : e ∈ entries)
    (hp : Published sha euid dir e nodes) : Published sha euid dir e nodes' := by
  obtain ⟨bytes, hfind, hsha⟩ := hp
  rcases h.payloads e he with hsame | ⟨hnone, -⟩
  · exact ⟨bytes, hsame.trans hfind, hsha⟩
  · rw [hfind] at hnone
    cases hnone

theorem Kept.trans {nodes'' : Nodes} (h : Kept sha euid dir entries nodes nodes')
    (h' : Kept sha euid dir entries nodes' nodes'') : Kept sha euid dir entries nodes nodes'' := by
  refine ⟨fun e he => ?_, fun path hother hworking => ?_⟩
  · rcases h.payloads e he with hsame | ⟨hnone, hpublished⟩
    · rcases h'.payloads e he with hsame' | ⟨hnone', hpublished'⟩
      · exact .inl (hsame'.trans hsame)
      · exact .inr ⟨hsame ▸ hnone', hpublished'⟩
    · exact .inr ⟨hnone, h'.published he hpublished⟩
  · exact (h'.elsewhere path hother hworking).trans (h.elsewhere path hother hworking)

theorem kept_of_aside (hpath : Aside dir entries path)
    (h : ∀ p, p ≠ path → nodes'.find? p = nodes.find? p) :
    Kept sha euid dir entries nodes nodes' := by
  refine ⟨fun e he => .inl (h _ (hpath.other e he)), fun p _ hworking => h p ?_⟩
  rintro rfl
  exact hworking hpath.working

theorem kept_refl (nodes : Nodes) : Kept sha euid dir entries nodes nodes :=
  ⟨fun _ _ => .inl rfl, fun _ _ _ => rfl⟩

/-- The steps of a run, taken together. -/
theorem kept_of_steps (h : Relation.ReflTransGen (Kept sha euid dir entries) nodes nodes') :
    Kept sha euid dir entries nodes nodes' := by
  induction h with
  | refl => exact kept_refl _
  | tail _ hstep ih => exact ih.trans hstep

/-! ### Rules for the calls -/

/-- A program keeps the payload paths, and what it returns satisfies `Q`. -/
abbrev Keeps {α : Type} (sha : Sha256) (euid : ℕ) (dir : Path) (entries : List Entry)
    (P : Nodes → Prop) (p : Op α) (Q : α → Nodes → Prop) : Prop :=
  Does .any (Kept sha euid dir entries) P p Q fun _ _ => True

variable {α : Type} {P : Nodes → Prop}

theorem keeps_call {f : Nodes → Except Failure α × Nodes} {Q : α → Nodes → Prop}
    (hkept : ∀ nodes, P nodes → Kept sha euid dir entries nodes (f nodes).2)
    (hok : ∀ nodes a, P nodes → (f nodes).1 = .ok a → Q a (f nodes).2) :
    Keeps sha euid dir entries P (call f) Q := by
  refine Does.atomic (fun nodes env hP _ => ?_) (fun nodes env a hP _ h => ?_)
    fun _ _ _ _ _ _ => trivial
  · cases env.fault with
    | some error => exact .refl
    | none => exact .single (hkept nodes hP)
  · revert h
    cases env.fault with
    | some error => exact fun h => nomatch h
    | none => exact hok nodes a hP

/-- A call that changes nothing. -/
theorem keeps_read {f : Nodes → Except Failure α × Nodes} {Q : α → Nodes → Prop}
    (hf : ∀ nodes, (f nodes).2 = nodes)
    (hok : ∀ nodes a, P nodes → (f nodes).1 = .ok a → Q a nodes) :
    Keeps sha euid dir entries P (call f) Q := by
  refine keeps_call (fun nodes _ => ?_) fun nodes a hP h => ?_
  · rw [hf]
    exact kept_refl nodes
  · rw [hf]
    exact hok nodes a hP h

theorem keeps_info (path : Path) :
    Keeps sha euid dir entries P (info path) fun node nodes =>
      P nodes ∧ nodes.find? path = some node := by
  refine keeps_read (fun nodes => ?_) fun nodes node hP h => ?_
  · cases nodes.find? path <;> rfl
  · cases hfind : nodes.find? path with
    | none =>
      rw [hfind] at h
      cases h
    | some found =>
      rw [hfind] at h
      cases h
      exact ⟨hP, rfl⟩

theorem keeps_present (path : Path) :
    Keeps sha euid dir entries P (present path) fun there nodes =>
      P nodes ∧ (nodes.find? path).isSome = there :=
  keeps_read (fun _ => rfl) fun _ _ hP h => ⟨hP, Except.ok.inj h⟩

theorem keeps_sync : Keeps sha euid dir entries P sync fun _ => P :=
  keeps_read (fun _ => rfl) fun _ _ hP _ => hP

theorem keeps_checksum (path : Path) :
    Keeps sha euid dir entries P (checksum sha path) fun digest nodes =>
      P nodes ∧ ∃ owner mode bytes, nodes.find? path = some (.file owner mode bytes) ∧
        digest = sha.hex bytes := by
  refine keeps_read (fun nodes => ?_) fun nodes digest hP h => ?_
  · split <;> rfl
  · split at h
    · next owner mode bytes hfind => exact ⟨hP, owner, mode, bytes, hfind, (Except.ok.inj h).symm⟩
    · cases h

theorem keeps_mkdir (hpath : Aside dir entries path) (mode : ℕ) :
    Keeps sha euid dir entries P (mkdir euid path mode) fun _ _ => True := by
  refine keeps_call (fun nodes _ => kept_of_aside hpath fun p hp => ?_) fun _ _ _ _ => trivial
  cases nodes.find? path with
  | some node => rfl
  | none => exact Table.find?_put_of_ne nodes hp _

theorem keeps_chmod (hpath : Aside dir entries path) (mode : ℕ) :
    Keeps sha euid dir entries P (chmod path mode) fun _ _ => True :=
  keeps_call (fun nodes _ => kept_of_aside hpath fun _ hp => Table.find?_modify_of_ne nodes hp _)
    fun _ _ _ _ => trivial

/-- An exception under a condition. -/
theorem keeps_raise {c : Prop} [Decidable c] {e : Failure} :
    Keeps sha euid dir entries P (when c (raise e)) fun _ nodes => P nodes ∧ ¬ c :=
  .when (fun _ => .raise fun _ _ => trivial) fun hc _ hP => ⟨hP, hc⟩

theorem Keeps.weaken {p : Op α} {Q : α → Nodes → Prop} (h : Keeps sha euid dir entries P p Q) :
    Keeps sha euid dir entries P p fun _ _ => True :=
  h.post fun _ _ _ => trivial

/-! ### Private directories -/

theorem keeps_privateParent (path : Path) :
    Keeps sha euid dir entries (fun _ => True) (privateParent euid path) fun _ _ => True := by
  have hcheck : ∀ path, Keeps sha euid dir entries (fun _ => True) (checkParent euid path)
      fun _ _ => True := fun path => .bind (keeps_info path) fun _ => keeps_raise.weaken
  induction path with
  | nil => exact hcheck []
  | cons name parent ih => exact .bind (hcheck _) fun _ => ih

theorem keeps_privateDir (hpath : Aside dir entries path) :
    Keeps sha euid dir entries (fun _ => True) (privateDir euid path) fun _ _ => True := by
  refine .bind (K := fun _ _ => True) (.when (fun _ => keeps_privateParent _) fun _ _ _ => trivial)
    fun _ => ?_
  refine .bind (keeps_present path) fun there => ?_
  refine .bind (K := fun _ _ => True) (.when (fun _ => keeps_mkdir hpath _) fun _ _ _ => trivial)
    fun _ => ?_
  refine .bind (keeps_info path) fun node => ?_
  exact .bind keeps_raise fun _ => keeps_chmod hpath _

/-! ### One entry -/

theorem keeps_reuse :
    Keeps sha euid dir entries (fun _ => True) (reuse sha euid e (e.name :: dir)) fun _ =>
      Published sha euid dir e := by
  refine .bind (keeps_info _) fun node => ?_
  refine .bind keeps_raise fun _ => ?_
  refine .bind (keeps_checksum _) fun digest => ?_
  refine keeps_raise.post fun _ nodes h => ?_
  obtain ⟨⟨⟨⟨-, hnode⟩, hsafe⟩, owner, mode, bytes, hfind, hdigest⟩, hsame⟩ := h
  cases hnode.symm.trans hfind
  obtain ⟨rfl, rfl⟩ : owner = euid ∧ mode = 0o700 := by simpa using hsafe
  exact ⟨bytes, hfind, hdigest.symm.trans (not_not.mp hsame)⟩

/-- The temporary file with the bytes that were copied. -/
def Holds (target : Path) (euid mode : ℕ) (bytes : Bytes) (nodes : Nodes) : Prop :=
  nodes.find? target = some (.file euid mode bytes)

theorem keeps_copy (htarget : Aside dir entries target) (bytes : Bytes) :
    Keeps sha euid dir entries (Holds target euid 0o600 []) (copy bytes target) fun _ =>
      Holds target euid 0o600 bytes := by
  refine Does.atomic (fun nodes env _ _ => ?_) (fun nodes env a hP _ h => ?_)
    fun _ _ _ _ _ _ => trivial
  · cases env.fault with
    | some error =>
      exact .single (kept_of_aside htarget fun _ hp => Table.find?_modify_of_ne nodes hp _)
    | none => exact .single (kept_of_aside htarget fun _ hp => Table.find?_modify_of_ne nodes hp _)
  · revert h
    cases env.fault with
    | some error => exact fun h => nomatch h
    | none =>
      intro _
      show (nodes.modify target _).find? target = _
      rw [Table.find?_modify_self, hP]
      rfl

theorem keeps_seal (htarget : Aside dir entries target) (bytes : Bytes) :
    Keeps sha euid dir entries (Holds target euid 0o600 bytes) (chmod target 0o700) fun _ =>
      Holds target euid 0o700 bytes := by
  refine keeps_call (fun nodes _ => kept_of_aside htarget fun _ hp =>
    Table.find?_modify_of_ne nodes hp _) fun nodes _ hP _ => ?_
  show (nodes.modify target _).find? target = _
  rw [Table.find?_modify_self, hP]
  rfl

theorem keeps_link (he : e ∈ entries) (hunique : ∀ e' ∈ entries, e'.name = e.name → e' = e)
    {bytes : Bytes} (hsha : sha.hex bytes = e.sha256) :
    Keeps sha euid dir entries (Holds target euid 0o700 bytes) (link target (e.name :: dir))
      fun _ => Published sha euid dir e := by
  have hlink : ∀ nodes : Nodes, Holds target euid 0o700 bytes nodes →
      nodes.find? (e.name :: dir) = none →
        Published sha euid dir e (nodes.put (e.name :: dir) (.file euid 0o700 bytes)) :=
    fun nodes _ _ => ⟨bytes, Table.find?_put_self _ _ _, hsha⟩
  refine keeps_call (fun nodes hP => ?_) fun nodes _ hP h => ?_
  · rw [hP]
    cases hfind : nodes.find? (e.name :: dir) with
    | some node => exact kept_refl nodes
    | none =>
      refine ⟨fun e' he' => ?_, fun path hother _ => ?_⟩
      · by_cases hname : e'.name = e.name
        · cases hunique e' he' hname
          exact .inr ⟨hfind, hlink nodes hP hfind⟩
        · refine .inl (Table.find?_put_of_ne nodes (fun hpath => hname ?_) _)
          exact (List.cons.inj hpath).1
      · exact Table.find?_put_of_ne nodes (hother e he).symm _
  · rw [hP] at h ⊢
    cases hfind : nodes.find? (e.name :: dir) with
    | some node =>
      rw [hfind] at h
      cases h
    | none => exact hlink nodes hP hfind

theorem keeps_publish (htarget : Aside dir entries target) (he : e ∈ entries)
    (hunique : ∀ e' ∈ entries, e'.name = e.name → e' = e) :
    Keeps sha euid dir entries (Holds target euid 0o600 [])
      (publish sha source e target (e.name :: dir)) fun _ => Published sha euid dir e := by
  refine .bind (keeps_copy htarget _) fun copied => ?_
  refine .bind keeps_raise fun _ => ?_
  refine .bind keeps_sync fun _ => ?_
  refine .bind keeps_sync fun _ => ?_
  refine .bind (keeps_checksum _) fun digest => ?_
  refine .bind keeps_raise fun _ => ?_
  -- the digest is that of the copied bytes
  refine Does.assuming (C := sha.hex (e.slice source) = e.sha256) (fun nodes h => ?_) fun hsha => ?_
  · obtain ⟨⟨⟨hholds, -⟩, owner, mode, bytes, hfind, hdigest⟩, hsame⟩ := h
    cases hholds.symm.trans hfind
    exact hdigest.symm.trans (not_not.mp hsame)
  · refine Does.conseq (.bind (keeps_seal htarget (e.slice source)) fun _ =>
      keeps_link he hunique hsha) (fun nodes h => h.1.1.1) (fun _ _ h => h) fun _ _ h => h

theorem keeps_delete (htarget : Aside dir entries target) :
    Keeps sha euid dir entries P (delete target) fun _ _ => True := by
  refine keeps_call (fun nodes _ => kept_of_aside htarget fun p hp => ?_) fun _ _ _ _ => trivial
  cases nodes.find? target with
  | some node => exact Table.find?_erase_of_ne nodes hp
  | none => rfl

theorem keeps_tempfile (haside : ∀ draw, Aside dir entries ((".payload-" ++ draw) :: dir)) :
    Keeps sha euid dir entries P (tempfile euid dir) fun target nodes =>
      Aside dir entries target ∧ Holds target euid 0o600 [] nodes := by
  refine Does.atomic (fun nodes env _ _ => ?_) (fun nodes env target _ _ h => ?_)
    fun _ _ _ _ _ _ => trivial
  · cases env.fault with
    | some error => exact .refl
    | none =>
      dsimp only
      cases nodes.find? ((".payload-" ++ env.draw) :: dir) with
      | some node => exact .refl
      | none => exact .single (kept_of_aside (haside env.draw) fun p hp =>
          Table.find?_put_of_ne nodes hp _)
  · revert h
    cases env.fault with
    | some error => exact fun h => nomatch h
    | none =>
      dsimp only
      cases nodes.find? ((".payload-" ++ env.draw) :: dir) with
      | some node => exact fun h => nomatch h
      | none =>
        intro h
        cases h
        exact ⟨haside env.draw, Table.find?_put_self _ _ _⟩

theorem keeps_extractEntry (he : e ∈ entries)
    (haside : ∀ draw, Aside dir entries ((".payload-" ++ draw) :: dir))
    (hunique : ∀ e' ∈ entries, e'.name = e.name → e' = e) :
    Keeps sha euid dir entries (fun _ => True) (extractEntry sha euid source dir e) fun _ =>
      Published sha euid dir e := by
  refine .bind (keeps_present _) fun there => ?_
  cases there with
  | true => exact keeps_reuse.pre fun _ _ => trivial
  | false =>
    refine .bind (keeps_tempfile haside) fun target => ?_
    refine Does.assuming (fun _ h => h.1) fun htarget => ?_
    refine .ensuring ((keeps_publish htarget he hunique).pre fun _ h => h.2) (fun _ => ?_) fun _ => ?_
    · -- the payload stays when the temporary file goes
      have hclean : Keeps sha euid dir entries (fun _ => True) (do sync; delete target)
          fun _ _ => True := .bind keeps_sync fun _ => keeps_delete htarget
      refine (hclean.keep (I := Published sha euid dir e) fun _ _ hp hkept =>
        hkept.published he hp).conseq (fun _ hp => ⟨trivial, hp⟩) (fun _ _ h => h.2)
          fun _ _ _ => trivial
    · exact .bind keeps_sync fun _ => keeps_delete htarget

/-! ### All entries -/

variable {fromJson : Bytes → Option Manifest} {m : Manifest}

theorem payloadNames_ne (draw : String) : ∀ name ∈ payloadNames, name ≠ ".payload-" ++ draw := by
  have hfirst : ∀ name ∈ payloadNames, name.toList.head? ≠ some '.' := by decide +kernel
  rintro name hname rfl
  refine hfirst _ hname ?_
  rw [String.toList_append]
  rfl

theorem keeps_extract (hnames : (m.entries.map Entry.name).Perm payloadNames) (dataDir : Path) :
    Keeps sha euid (releaseDir sha m dataDir) m.entries (fun _ => True)
      (extract sha euid source m dataDir) fun dir nodes =>
        dir = releaseDir sha m dataDir ∧ ∀ e ∈ m.entries, Published sha euid dir e nodes := by
  have hnodup : (m.entries.map Entry.name).Nodup := hnames.nodup_iff.mpr (by decide +kernel)
  have hunique : ∀ e ∈ m.entries, ∀ e' ∈ m.entries, e'.name = e.name → e' = e :=
    fun e he e' he' h => List.inj_on_of_nodup_map hnodup he' he h
  have hbase : Aside (releaseDir sha m dataDir) m.entries ("bin" :: dataDir) := by
    refine ⟨fun e _ h => ?_, .inr (.inl rfl)⟩
    have hlength := congrArg List.length h
    simp only [releaseDir, List.length_cons] at hlength
    omega
  have hdir : Aside (releaseDir sha m dataDir) m.entries (releaseDir sha m dataDir) := by
    refine ⟨fun e _ h => ?_, .inl rfl⟩
    have hlength := congrArg List.length h
    simp only [List.length_cons] at hlength
    omega
  have htemporary : ∀ draw, Aside (releaseDir sha m dataDir) m.entries
      ((".payload-" ++ draw) :: releaseDir sha m dataDir) := by
    refine fun draw => ⟨fun e he h => ?_, .inr (.inr ⟨draw, rfl⟩)⟩
    exact payloadNames_ne draw e.name (hnames.subset (List.mem_map_of_mem he)) (List.cons.inj h).1
  refine .bind (keeps_privateDir hbase) fun _ => ?_
  refine .bind (keeps_privateDir hdir) fun _ => ?_
  -- the entries that were turned to so far are published, and stay so
  refine .bind (K := fun _ nodes => ∀ e ∈ m.entries,
    e ∉ ([] : List Entry) → Published sha euid (releaseDir sha m dataDir) e nodes) ?_ fun _ =>
      .pure fun nodes h => ⟨rfl, fun e he => h e he List.not_mem_nil⟩
  refine Does.conseq (.forEach (I := fun rest nodes => ∀ e ∈ m.entries, e ∉ rest →
    Published sha euid (releaseDir sha m dataDir) e nodes) fun e rest hsuffix => ?_)
      (fun nodes _ e he hnot => absurd he hnot) (fun _ _ h => h) fun _ _ h => h
  have he : e ∈ m.entries := hsuffix.subset List.mem_cons_self
  refine ((keeps_extractEntry he htemporary (hunique e he)).keep
    (I := fun nodes => ∀ e' ∈ m.entries, e' ∉ e :: rest →
      Published sha euid (releaseDir sha m dataDir) e' nodes) fun nodes nodes' h hkept e' he' hnot =>
        hkept.published he' (h e' he' hnot)).conseq (fun _ h => ⟨trivial, h⟩)
          (fun _ nodes h e' he' hnot => ?_) fun _ _ _ => trivial
  by_cases hsame : e' = e
  · rw [hsame]
    exact h.1
  · exact h.2 e' he' (List.not_mem_cons_of_ne_of_not_mem hsame hnot)

end Published

/-- Only sound bundles are accepted, without an overflow, and only what their manifests say is
published: after an extraction that returns every payload path holds bytes with the digest of the
manifest, and one that raises or is killed has put no other bytes under a payload's name. -/
theorem bundle_sound (sha : Sha256) (fromJson : Bytes → Option Manifest) (file : File) :
    Bundle.new fromJson file ≠ .error .overflow ∧
      ∀ m, Bundle.new fromJson file = .ok m → Sound fromJson file m ∧
        ∀ (euid : ℕ) (source : Bytes) (dataDir : Path) (nodes : Nodes) (fates : List (Fate Env)),
          (∀ dir, (extract sha euid source m dataDir nodes fates).outcome = .ok dir →
            dir = releaseDir sha m dataDir ∧ ∀ e ∈ m.entries,
              Published sha euid dir e (extract sha euid source m dataDir nodes fates).state) ∧
          Kept sha euid (releaseDir sha m dataDir) m.entries nodes
            (extract sha euid source m dataDir nodes fates).state := by
  obtain ⟨hoverflow, hsound⟩ := Bundle.new_sound fromJson file
  refine ⟨hoverflow, fun m hm => ⟨hsound m hm, fun euid source dataDir nodes fates => ?_⟩⟩
  have hextract : Keeps sha euid (releaseDir sha m dataDir) m.entries (fun _ => True)
      (extract sha euid source m dataDir) _ := keeps_extract (hsound m hm).names dataDir
  refine ⟨fun dir hdir => ?_, ?_⟩
  · exact hextract.ok (Adversary.allows_any fates) trivial hdir
  · exact kept_of_steps (hextract.steps (Adversary.allows_any fates) trivial)

/-- A digest that says nothing. -/
def Sha256.blank : Sha256 where
  hex _ := String.ofList (List.replicate 64 '0')
  formed _ := by decide +kernel

theorem bundle_sound_packed :
    ∃ (file : File) (m : Manifest), Bundle.new Manifest.fromJson file = .ok m ∧
      Sound Manifest.fromJson file m ∧
      Kept .blank 0 (releaseDir .blank m []) m.entries .empty
        (extract .blank 0 [] m [] .empty [.crash]).state := by
  have hpayloads : ∀ p ∈ payloadsOf [1] [2] [3], p.2 ≠ [] := by decide
  obtain ⟨file, m, hpackage⟩ : ∃ (file : File) (m : Manifest),
      package .blank "0.1.0" magic [1] [2] [3] = .ok (file.bytes, m) :=
    exists_package (by decide +kernel) hpayloads (by decide +kernel)
  obtain ⟨hnew, -⟩ := new_packed hpayloads hpackage
  obtain ⟨hsound, hextract⟩ := (bundle_sound .blank Manifest.fromJson file).2 m hnew
  exact ⟨file, m, hnew, hsound, (hextract 0 [] [] .empty [.crash]).2⟩

end Sandcube.Cli
