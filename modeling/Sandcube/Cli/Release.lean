import Sandcube.Cli.Extract

/-!
# A release from its files and back

What `package` wrote, `Bundle.new` reads and `extract` unpacks: into an empty private directory the
payloads come out as they went in (`release_round_trip`).  No call fails here, so the files are
followed exactly, as a function from paths to nodes.
-/

namespace Sandcube.Cli

variable {nodes : Nodes} {node : Node} {owner mode : ℕ} {bytes : Bytes} {path : Path}
  {name : String} {e : Entry} {payload : String × Bytes}

open Prog (raise when forEach ensuring Does)

/-! ### Runs without failures -/

/-- No call fails, and the process lives. -/
def unhindered : Adversary Env where
  May
    | .go env => env.fault = none
    | .crash | .crashAfter _ => False
  may_default := rfl

theorem unhindered_gentle : unhindered.Gentle := by
  intro t ht
  cases t with
  | go env => exact fun h => h
  | crash | crashAfter env => exact ht.elim

/-- The program returns. -/
abbrev Returns {α : Type} (P : Nodes → Prop) (p : Op α) (Q : α → Nodes → Prop) : Prop :=
  Does unhindered (fun _ _ => True) P p Q fun _ _ => False

section Rules

variable {α : Type} {P : Nodes → Prop} {sha : Sha256} {euid : ℕ}

theorem returns_atomic {step : Env → Nodes → Except Failure α × Nodes} {Q : α → Nodes → Prop}
    (h : ∀ env nodes, env.fault = none → P nodes →
      ∃ a nodes', step env nodes = (.ok a, nodes') ∧ Q a nodes') :
    Returns P (Prog.atomic step) Q := by
  refine Does.atomic (fun nodes env _ _ => .single trivial) (fun nodes env a hP hfault hok => ?_)
    fun nodes env e hP hfault herror => ?_
  · obtain ⟨a', nodes', hstep, hQ⟩ := h env nodes hfault hP
    rw [hstep] at hok ⊢
    cases hok
    exact hQ
  · obtain ⟨a', nodes', hstep, -⟩ := h env nodes hfault hP
    rw [hstep] at herror
    cases herror

theorem returns_call {f : Nodes → Except Failure α × Nodes} {Q : α → Nodes → Prop}
    (h : ∀ nodes, P nodes → ∃ a nodes', f nodes = (.ok a, nodes') ∧ Q a nodes') :
    Returns P (call f) Q := by
  refine returns_atomic fun env nodes hfault hP => ?_
  obtain ⟨a, nodes', hf, hQ⟩ := h nodes hP
  exact ⟨a, nodes', by rw [hfault]; exact hf, hQ⟩

/-- The rest of a program runs on with the value that is known to be returned. -/
theorem returns_bind {β : Type} {p : Op α} {k : α → Op β} {a : α} {K : Nodes → Prop}
    {Q : β → Nodes → Prop} (hp : Returns P p fun r nodes => r = a ∧ K nodes)
    (hk : Returns K (k a) Q) : Returns P (p >>= k) Q := by
  refine .bind hp fun r => Does.assuming (fun _ h => h.1) ?_
  rintro rfl
  exact hk.pre fun _ h => h.2

/-- The nodes are these. -/
def At (f : Path → Option Node) (nodes : Nodes) : Prop := ∀ path, nodes.find? path = f path

variable {f : Path → Option Node} {path target : Path}

theorem at_put (h : At f nodes) (path : Path) (node : Node) :
    At (Function.update f path (some node)) (nodes.put path node) := by
  intro p
  by_cases hp : p = path
  · rw [hp, Table.find?_put_self, Function.update_self]
  · rw [Table.find?_put_of_ne nodes hp, Function.update_of_ne hp, h p]

theorem at_erase (h : At f nodes) (path : Path) :
    At (Function.update f path none) (nodes.erase path) := by
  intro p
  by_cases hp : p = path
  · rw [hp, Table.find?_erase_self, Function.update_self]
  · rw [Table.find?_erase_of_ne nodes hp, Function.update_of_ne hp, h p]

theorem at_modify (h : At f nodes) (hnode : f path = some node) (g : Node → Node) :
    At (Function.update f path (some (g node))) (nodes.modify path g) := by
  intro p
  by_cases hp : p = path
  · rw [hp, Table.find?_modify_self, Function.update_self, h path, hnode]
    rfl
  · rw [Table.find?_modify_of_ne nodes hp, Function.update_of_ne hp, h p]

theorem returns_present :
    Returns (At f) (present path) fun there nodes => there = (f path).isSome ∧ At f nodes :=
  returns_call fun nodes h => ⟨_, nodes, rfl, by rw [h path], h⟩

theorem returns_info (hnode : f path = some node) :
    Returns (At f) (info path) fun found nodes => found = node ∧ At f nodes :=
  returns_call fun nodes h => ⟨node, nodes, by rw [h path, hnode], rfl, h⟩

theorem returns_sync : Returns (At f) sync fun _ => At f :=
  returns_call fun nodes h => ⟨(), nodes, rfl, h⟩

theorem returns_mkdir (hnone : f path = none) (mode : ℕ) :
    Returns (At f) (mkdir euid path mode) fun _ =>
      At (Function.update f path (some (.directory euid mode))) :=
  returns_call fun nodes h => ⟨(), _, by rw [h path, hnone], at_put h _ _⟩

theorem returns_chmod_directory (hnode : f path = some (.directory owner mode)) (mode' : ℕ) :
    Returns (At f) (chmod path mode') fun _ =>
      At (Function.update f path (some (.directory owner mode'))) :=
  returns_call fun _ h => ⟨(), _, rfl, at_modify h hnode _⟩

theorem returns_chmod_file (hnode : f path = some (.file owner mode bytes)) (mode' : ℕ) :
    Returns (At f) (chmod path mode') fun _ =>
      At (Function.update f path (some (.file owner mode' bytes))) :=
  returns_call fun _ h => ⟨(), _, rfl, at_modify h hnode _⟩

theorem returns_checksum (hnode : f path = some (.file owner mode bytes)) :
    Returns (At f) (checksum sha path) fun digest nodes => digest = sha.hex bytes ∧ At f nodes :=
  returns_call fun nodes h => ⟨_, nodes, by rw [h path, hnode], rfl, h⟩

theorem returns_link (hnone : f path = none) (hnode : f target = some node) :
    Returns (At f) (link target path) fun _ => At (Function.update f path (some node)) :=
  returns_call fun nodes h => ⟨(), _, by rw [h path, h target, hnone, hnode], at_put h _ _⟩

theorem returns_delete (hnode : f path = some node) :
    Returns (At f) (delete path) fun _ => At (Function.update f path none) :=
  returns_call fun nodes h => ⟨(), _, by rw [h path, hnode], at_erase h _⟩

theorem returns_copy (hnode : f path = some (.file owner mode [])) (bytes : Bytes) :
    Returns (At f) (copy bytes path) fun copied nodes =>
      copied = bytes.length ∧ At (Function.update f path (some (.file owner mode bytes))) nodes :=
  returns_atomic fun env nodes hfault h =>
    ⟨_, _, by rw [hfault], rfl, at_modify h hnode _⟩

theorem returns_tempfile {dir : Path} (hnone : ∀ draw, f ((".payload-" ++ draw) :: dir) = none) :
    Returns (At f) (tempfile euid dir) fun target nodes =>
      (∃ draw, target = (".payload-" ++ draw) :: dir) ∧
        At (Function.update f target (some (.file euid 0o600 []))) nodes :=
  returns_atomic fun env nodes hfault h =>
    ⟨_, _, by dsimp only; rw [hfault, h, hnone], ⟨env.draw, rfl⟩, at_put h _ _⟩

theorem returns_raise {c : Prop} [Decidable c] {e : Failure} (h : ¬ c) :
    Returns P (when c (raise e)) fun _ => P :=
  .when (fun hc => absurd hc h) fun _ _ hP => hP

end Rules

/-! ### Private directories -/

/-- The directory and those on the way to it are private to their owners. -/
def SafeUp (euid : ℕ) (f : Path → Option Node) (path : Path) : Prop :=
  ∀ p, p <:+ path → ∃ node, f p = some node ∧ node.safe [0, euid] = true

section Directories

variable {euid : ℕ} {f : Path → Option Node}

theorem returns_privateParent (h : SafeUp euid f path) :
    Returns (At f) (privateParent euid path) fun _ => At f := by
  have hcheck : ∀ p, p <:+ path → Returns (At f) (checkParent euid p) fun _ => At f := by
    intro p hp
    obtain ⟨node, hnode, hsafe⟩ := h p hp
    exact returns_bind (returns_info hnode) (returns_raise (by simp [hsafe]))
  induction path with
  | nil => exact hcheck [] List.suffix_rfl
  | cons name parent ih =>
    refine .bind (hcheck _ List.suffix_rfl) fun _ => ?_
    have hparent : parent <:+ name :: parent := List.suffix_cons name parent
    exact ih (fun p hp => h p (hp.trans hparent)) fun p hp => hcheck p (hp.trans hparent)

/-- A directory that is not there yet is made. -/
theorem returns_privateDir {parent : Path} (hparent : SafeUp euid f parent)
    (hnone : f (name :: parent) = none) :
    Returns (At f) (privateDir euid (name :: parent)) fun _ =>
      At (Function.update f (name :: parent) (some (.directory euid 0o700))) := by
  have hmade : Function.update f (name :: parent) (some (.directory euid 0o700)) (name :: parent) =
      some (.directory euid 0o700) := Function.update_self _ _ _
  refine .bind (.when (fun _ => returns_privateParent hparent) fun hnil => ?_) fun _ => ?_
  · exact absurd (List.cons_ne_nil _ _) hnil
  refine returns_bind returns_present ?_
  rw [hnone]
  refine .bind (.when (fun _ => returns_mkdir hnone 0o700) fun hthere => absurd rfl hthere)
    fun _ => ?_
  refine returns_bind (returns_info hmade) ?_
  refine .bind (returns_raise (by simp [Node.safe])) fun _ => ?_
  have hchmod := returns_chmod_directory hmade 0o700
  rw [Function.update_idem] at hchmod
  exact hchmod

theorem safeUp_cons (h : SafeUp euid f path) :
    SafeUp euid (Function.update f (name :: path) (some (.directory euid 0o700)))
      (name :: path) := by
  intro p hp
  rcases List.suffix_cons_iff.mp hp with rfl | hp
  · exact ⟨_, Function.update_self _ _ _, by simp [Node.safe]⟩
  · obtain ⟨node, hnode, hsafe⟩ := h p hp
    refine ⟨node, ?_, hsafe⟩
    rw [Function.update_of_ne, hnode]
    rintro rfl
    exact absurd hp.length_le (by simp)

end Directories

/-! ### The entries -/

section Entries

variable {sha : Sha256} {euid : ℕ} {source : Bytes} {f : Path → Option Node} {dir : Path}

/-- Nothing is under a temporary name. -/
def NoTemporary (dir : Path) (f : Path → Option Node) : Prop :=
  ∀ draw, f ((".payload-" ++ draw) :: dir) = none

/-- The file of a payload. -/
def place (euid : ℕ) (dir : Path) (f : Path → Option Node) (payload : String × Bytes) :
    Path → Option Node :=
  Function.update f (payload.1 :: dir) (some (.file euid 0o700 payload.2))

theorem returns_publish {target : Path} (he : e.About sha source payload)
    (htarget : target ≠ payload.1 :: dir) (hnew : f (payload.1 :: dir) = none) :
    Returns (At (Function.update f target (some (.file euid 0o600 []))))
      (publish sha source e target (payload.1 :: dir)) fun _ =>
        At (Function.update (place euid dir f payload) target
          (some (.file euid 0o700 payload.2))) := by
  obtain ⟨-, hslice, hsize, hsha⟩ := he
  have hcopy := returns_copy (Function.update_self target (some (.file euid 0o600 [])) f)
    (e.slice source)
  rw [Function.update_idem, hslice] at hcopy
  have hheld := Function.update_self target (some (Node.file euid 0o600 payload.2)) f
  have hchmod := returns_chmod_file hheld 0o700
  rw [Function.update_idem] at hchmod
  have hfree : Function.update f target (some (Node.file euid 0o700 payload.2))
      (payload.1 :: dir) = none := by
    rw [Function.update_of_ne (Ne.symm htarget), hnew]
  have hlink := returns_link hfree (Function.update_self target _ f)
  rw [Function.update_comm htarget] at hlink
  unfold publish
  rw [hslice]
  refine returns_bind hcopy ?_
  refine .bind (returns_raise (by simp [hsize])) fun _ => ?_
  refine .bind returns_sync fun _ => ?_
  refine .bind returns_sync fun _ => ?_
  refine returns_bind (returns_checksum hheld) ?_
  refine .bind (returns_raise (by simp [hsha])) fun _ => ?_
  exact .bind hchmod fun _ => hlink

theorem returns_extractEntry (he : e.About sha source payload) (hname : payload.1 ∈ payloadNames)
    (hnew : f (payload.1 :: dir) = none) (hnone : NoTemporary dir f) :
    Returns (At f) (extractEntry sha euid source dir e) fun _ => At (place euid dir f payload) := by
  unfold extractEntry
  rw [he.name]
  refine returns_bind returns_present ?_
  rw [hnew]
  refine .bind (returns_tempfile hnone) fun target => ?_
  refine Does.assuming (fun _ h => h.1) ?_
  rintro ⟨draw, rfl⟩
  have htarget : (".payload-" ++ draw) :: dir ≠ payload.1 :: dir := fun h =>
    payloadNames_ne draw payload.1 hname (List.cons.inj h).1.symm
  -- the temporary name is free again afterwards
  have hfree : Function.update (place euid dir f payload) ((".payload-" ++ draw) :: dir) none =
      place euid dir f payload := by
    rw [Function.update_eq_self_iff, place, Function.update_of_ne htarget, hnone draw]
  have hdelete := returns_delete (Function.update_self ((".payload-" ++ draw) :: dir)
    (some (.file euid 0o700 payload.2)) (place euid dir f payload))
  rw [Function.update_idem, hfree] at hdelete
  refine .ensuring ((returns_publish he htarget hnew).pre fun _ h => h.2)
    (fun _ => .bind returns_sync fun _ => hdelete) fun _ => ?_
  exact .never fun _ h => h

/-- All entries, in order. -/
theorem returns_entries {entries : List Entry} {payloads : List (String × Bytes)}
    (h : List.Forall₂ (Entry.About sha source) entries payloads)
    (hnames : ∀ p ∈ payloads, p.1 ∈ payloadNames) (hnodup : (payloads.map Prod.fst).Nodup)
    (hnew : ∀ p ∈ payloads, f (p.1 :: dir) = none) (hnone : NoTemporary dir f) :
    Returns (At f) (forEach entries (extractEntry sha euid source dir)) fun _ =>
      At (payloads.foldl (place euid dir) f) := by
  induction h generalizing f with
  | nil => exact .pure fun _ h => h
  | @cons e payload entries payloads he _ ih =>
    rw [List.map_cons, List.nodup_cons] at hnodup
    have hname := hnames payload List.mem_cons_self
    refine .bind (returns_extractEntry he hname (hnew payload List.mem_cons_self) hnone) fun _ => ?_
    refine ih (fun p hp => hnames p (List.mem_cons_of_mem _ hp)) hnodup.2 (fun p hp => ?_) ?_
    · rw [place, Function.update_of_ne, hnew p (List.mem_cons_of_mem _ hp)]
      intro hpath
      apply hnodup.1
      rw [← (List.cons.inj hpath).1]
      exact List.mem_map_of_mem hp
    · intro draw
      rw [place, Function.update_of_ne, hnone draw]
      exact fun hpath => payloadNames_ne draw payload.1 hname (List.cons.inj hpath).1.symm

theorem foldl_place_of_not_mem {payloads : List (String × Bytes)} {name : String}
    (h : name ∉ payloads.map Prod.fst) :
    payloads.foldl (place euid dir) f (name :: dir) = f (name :: dir) := by
  induction payloads generalizing f with
  | nil => rfl
  | cons payload payloads ih =>
    rw [List.map_cons, List.mem_cons, not_or] at h
    rw [List.foldl_cons, ih h.2, place, Function.update_of_ne]
    exact fun hpath => h.1 (List.cons.inj hpath).1

theorem foldl_place {payloads : List (String × Bytes)} (hnodup : (payloads.map Prod.fst).Nodup)
    (h : payload ∈ payloads) :
    payloads.foldl (place euid dir) f (payload.1 :: dir) =
      some (.file euid 0o700 payload.2) := by
  induction payloads generalizing f with
  | nil => exact absurd h List.not_mem_nil
  | cons first payloads ih =>
    rw [List.map_cons, List.nodup_cons] at hnodup
    rw [List.foldl_cons]
    rcases List.mem_cons.mp h with rfl | h
    · rw [foldl_place_of_not_mem hnodup.1, place, Function.update_self]
    · exact ih hnodup.2 h

end Entries

/-! ### The round trip -/

/-- A private directory with nothing in it. -/
structure EmptyPrivate (euid : ℕ) (dataDir : Path) (nodes : Nodes) : Prop where
  safe : SafeUp euid nodes.find? dataDir
  empty : ∀ name path, dataDir <:+ path → nodes.find? (name :: path) = none

section RoundTrip

variable {sha : Sha256} {euid : ℕ} {source : Bytes} {m : Manifest}
  {payloads : List (String × Bytes)}

/-- Entries that are about payloads come out as those. -/
theorem returns_extract (h : List.Forall₂ (Entry.About sha source) m.entries payloads)
    (hnames : payloads.map Prod.fst = payloadNames) {dataDir : Path}
    (hprivate : EmptyPrivate euid dataDir nodes) :
    Returns (· = nodes) (extract sha euid source m dataDir) fun dir nodes' =>
      dir = releaseDir sha m dataDir ∧
        ∀ p ∈ payloads, nodes'.find? (p.1 :: dir) = some (.file euid 0o700 p.2) := by
  have hnodup : (payloads.map Prod.fst).Nodup := hnames ▸ (by decide +kernel)
  have hbase : nodes.find? ("bin" :: dataDir) = none := hprivate.empty _ _ List.suffix_rfl
  -- what is found after the two directories have been made
  set made := Function.update nodes.find? ("bin" :: dataDir) (some (.directory euid 0o700))
  have hdir : made (releaseDir sha m dataDir) = none := by
    refine (Function.update_of_ne (fun h => ?_) _ _).trans ?_
    · exact absurd (congrArg List.length h) (by simp [releaseDir])
    · exact hprivate.empty _ _ (List.suffix_cons _ _)
  set found := Function.update made (releaseDir sha m dataDir) (some (.directory euid 0o700))
  have hbelow : ∀ name, found (name :: releaseDir sha m dataDir) = none := by
    intro name
    refine (Function.update_of_ne (fun h => ?_) _ _).trans
      ((Function.update_of_ne (fun h => ?_) _ _).trans ?_)
    · exact absurd (congrArg List.length h) (by simp)
    · exact absurd (congrArg List.length h) (by simp only [releaseDir, List.length_cons]; omega)
    · exact hprivate.empty _ _ ((List.suffix_cons _ _).trans (List.suffix_cons _ _))
  refine .bind ((returns_privateDir hprivate.safe hbase).pre ?_) fun _ => ?_
  · rintro _ rfl path
    rfl
  refine .bind (returns_privateDir (safeUp_cons hprivate.safe) hdir) fun _ => ?_
  refine .bind (returns_entries h (fun p hp => ?_) hnodup (fun p _ => hbelow p.1)
    fun draw => hbelow _) fun _ => .pure fun nodes' hat => ⟨rfl, fun p hp => ?_⟩
  · rw [← hnames]
    exact List.mem_map_of_mem hp
  · rw [hat, foldl_place hnodup hp]

end RoundTrip

/-- Packing, reading and extracting: the reader accepts what `package` wrote, with the version and
the entries that were written, and into an empty private directory the payloads come out as they
went in. -/
theorem release_round_trip (sha : Sha256) (version : String) (launcher api adapter deps : Bytes)
    (hversion : versionValid version = true)
    (hpayloads : ∀ p ∈ payloadsOf api adapter deps, p.2 ≠ []) :
    (launcher.length + api.length + adapter.length + deps.length + 65563 < 2 ^ 63 →
      ∃ (file : File) (m : Manifest),
        package sha version launcher api adapter deps = .ok (file.bytes, m)) ∧
    ∀ (file : File) (m : Manifest),
      package sha version launcher api adapter deps = .ok (file.bytes, m) →
        Bundle.new Manifest.fromJson file = .ok m ∧ m.version = version ∧
        List.Forall₂ (Entry.About sha file.bytes) m.entries (payloadsOf api adapter deps) ∧
        ∀ (euid : ℕ) (dataDir : Path) (nodes : Nodes) (fates : List (Fate Env)),
          EmptyPrivate euid dataDir nodes → unhindered.Allows fates →
            (extract sha euid file.bytes m dataDir nodes fates).outcome =
                .ok (releaseDir sha m dataDir) ∧
              ∀ p ∈ payloadsOf api adapter deps,
                (extract sha euid file.bytes m dataDir nodes fates).state.find?
                    (p.1 :: releaseDir sha m dataDir) = some (.file euid 0o700 p.2) := by
  refine ⟨exists_package hversion hpayloads, fun file m hpackage => ?_⟩
  obtain ⟨hnew, hm, habout⟩ := new_packed hpayloads hpackage
  refine ⟨hnew, hm, habout, fun euid dataDir nodes fates hprivate hfates => ?_⟩
  have hreturns := returns_extract habout rfl hprivate
  rcases hreturns.survives hfates rfl unhindered_gentle with ⟨dir, hok, rfl, hfiles⟩ | ⟨e, -, hno⟩
  · exact ⟨hok, hfiles⟩
  · exact hno.elim

/-- The root and an empty directory of its owner's. -/
def freshNodes : Nodes :=
  { rows := [([], .directory 0 0o755), (["data"], .directory 0 0o700)]
    nodup := by decide }

theorem freshNodes_private : EmptyPrivate 0 ["data"] freshNodes := by
  constructor
  · intro path hpath
    rcases List.suffix_cons_iff.mp hpath with rfl | hpath
    · exact ⟨_, rfl, by decide⟩
    · rw [List.suffix_nil.mp hpath]
      exact ⟨_, rfl, by decide⟩
  · rintro name path ⟨front, rfl⟩
    rw [Table.find?_eq_none_iff]
    intro hmem
    rcases List.mem_pair.mp hmem with h | h
    · cases h
    · exact absurd (congrArg List.length h) (by simp)

/-- A launcher and a payload that are magic lines themselves. -/
theorem release_round_trip_magic :
    ∃ (file : File) (m : Manifest),
      package .blank "0.1.0" magic magic [1] [2] = .ok (file.bytes, m) ∧
      Bundle.new Manifest.fromJson file = .ok m ∧
      (extract .blank 0 file.bytes m ["data"] freshNodes []).state.find?
        ("sandcube-api" :: releaseDir .blank m ["data"]) = some (.file 0 0o700 magic) := by
  obtain ⟨hpack, hread⟩ := release_round_trip .blank "0.1.0" magic magic [1] [2]
    (by decide +kernel) (by decide +kernel)
  obtain ⟨file, m, hpackage⟩ := hpack (by decide +kernel)
  obtain ⟨hnew, -, -, hextract⟩ := hread file m hpackage
  have hfiles := (hextract 0 ["data"] freshNodes [] freshNodes_private (Adversary.allows_nil _)).2
  exact ⟨file, m, hpackage, hnew, hfiles ("sandcube-api", magic) List.mem_cons_self⟩

end Sandcube.Cli
