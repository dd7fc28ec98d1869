import Sandcube.Context.Archive

/-!
# Extraction recovers the archived tree

A well-formed archive is extracted to exactly its files, its directories and their parents, when
nothing fails; reads may still be short.  The state of an extraction is described by the stream
that is left and by what stands at each place (`At`), and one entry changes the places on its
path and no others (`place`).  The loop follows the list of entries.
-/

namespace Sandcube.BuildContext

open Sandcube.Path (Bytes slash dot normal join plain)

/-! ### What an archive stands for -/

namespace Entry

/-- What stands at the place of the entry; the mode is cut down to the permission bits. -/
def node (e : Entry) : Node :=
  match e.body with
  | .directory => .dir
  | .file _ content => .file content (e.mode % 512)

def IsFile (e : Entry) : Prop := e.body ≠ .directory

end Entry

/-- The archives of the claim: few enough entries of bounded total size, files with a name, no
place twice (the root apart), and no file as the parent of another entry. -/
structure Archivable (entries : List Entry) (zeros : Nat) : Prop where
  count : entries.length ≤ maxEntries
  total : (entries.map Entry.weight).sum + zeros ≤ maxExpanded
  named : ∀ e ∈ entries, e.IsFile → e.path ≠ []
  distinct : ((entries.map Entry.path).filter (· ≠ [])).Nodup
  parents : ∀ e ∈ entries, ∀ e' ∈ entries, e.IsFile → e.path <+: e'.path → e.path = e'.path

/-- The tree has the files of the entries with their contents and modes, their directories, and
the parents of both. -/
structure Holds (entries : List Entry) (nodes : Place → Option Node) : Prop where
  file : ∀ path content mode, nodes path = some (.file content mode) ↔
    ∃ e ∈ entries, e.path = path ∧ e.node = .file content mode
  dir : ∀ path, nodes path = some .dir ↔
    path ≠ [] ∧ ∃ e ∈ entries, path <+: e.path ∧ (path = e.path → e.node = .dir)

/-- One more entry on a tree. -/
def place (e : Entry) (nodes : Place → Option Node) (path : Place) : Option Node :=
  if path ≠ [] ∧ path <+: e.path then some (if path = e.path then e.node else .dir)
  else nodes path

/-- Two entries that can stand in one archive. -/
def Compatible (e e' : Entry) : Prop :=
  (e.IsFile → ¬ e.path <+: e'.path) ∧ (e'.IsFile → ¬ e'.path <+: e.path)

namespace Entry

variable {e : Entry}
variable {done entries : List Entry} {nodes : Place → Option Node} {zeros total : Nat}
  {path : Place} {s : Store} {content : Bytes}

theorem size_of_isDirectory (h : isDirectory e.body.kind = true) : e.size = 0 := by
  unfold size
  cases hbody : e.body with
  | directory => rfl
  | file old content =>
    rw [hbody] at h
    cases old <;> simp [isDirectory, Body.kind] at h

theorem isDirectory_of_not_isFile (h : ¬ e.IsFile) : isDirectory e.body.kind = true := by
  rw [not_not.1 h]
  rfl

/-- Joined paths of entries differ when the paths do. -/
theorem join_path_inj {e' : Entry} (h : join slash e.path = join slash e'.path) :
    e.path = e'.path := by
  have hnormal : ∀ e : Entry, normal slash dot (join slash e.path) = e.path := fun e =>
    Path.normal_join (fun _ hpart => Path.slash_not_mem_of_mem_parts (Path.mem_normal.1 hpart).1)
      fun _ hpart => Path.plain_iff.2 (Path.mem_normal.1 hpart).2
  rw [← hnormal e, h, hnormal]

theorem node_eq_dir_iff : e.node = .dir ↔ ¬ e.IsFile := by
  unfold node IsFile
  cases e.body <;> simp

theorem isFile_of_node {mode : Nat} (h : e.node = .file content mode) : e.IsFile := by
  intro hdir
  rw [node, hdir] at h
  cases h

end Entry

theorem Holds.place (h : Holds done nodes) {e : Entry} (hcompatible : ∀ e' ∈ done, Compatible e e')
    (hnamed : e.IsFile → e.path ≠ []) : Holds (e :: done) (place e nodes) := by
  constructor
  · intro path content mode
    unfold BuildContext.place
    by_cases hpath : path ≠ [] ∧ path <+: e.path
    · rw [if_pos hpath, Option.some_inj]
      by_cases hself : path = e.path
      · subst hself
        rw [if_pos rfl]
        constructor
        · exact fun hnode => ⟨e, List.mem_cons_self, rfl, hnode⟩
        · rintro ⟨e', he', hpath', hnode⟩
          rcases List.mem_cons.1 he' with rfl | he'
          · exact hnode
          · exact absurd (hpath' ▸ List.prefix_refl _) ((hcompatible e' he').2 (Entry.isFile_of_node hnode))
      · rw [if_neg hself]
        constructor
        · intro hnode
          cases hnode
        · rintro ⟨e', he', hpath', hnode⟩
          rcases List.mem_cons.1 he' with rfl | he'
          · exact absurd hpath'.symm hself
          · exact absurd (hpath' ▸ hpath.2) ((hcompatible e' he').2 (Entry.isFile_of_node hnode))
    · rw [if_neg hpath, h.file]
      constructor
      · rintro ⟨e', he', hrest⟩
        exact ⟨e', List.mem_cons_of_mem _ he', hrest⟩
      · rintro ⟨e', he', hpath', hnode⟩
        rcases List.mem_cons.1 he' with rfl | he'
        · refine absurd ⟨?_, hpath' ▸ List.prefix_refl _⟩ hpath
          rw [← hpath']
          exact hnamed (Entry.isFile_of_node hnode)
        · exact ⟨e', he', hpath', hnode⟩
  · intro path
    unfold BuildContext.place
    by_cases hpath : path ≠ [] ∧ path <+: e.path
    · rw [if_pos hpath, Option.some_inj]
      by_cases hself : path = e.path
      · subst hself
        rw [if_pos rfl]
        constructor
        · exact fun hnode => ⟨hpath.1, e, List.mem_cons_self, hpath.2, fun _ => hnode⟩
        · rintro ⟨-, e', he', hpre, hnode⟩
          rcases List.mem_cons.1 he' with rfl | he'
          · exact hnode rfl
          · -- another entry has the place of `e` on its path, so `e` is no file
            rw [Entry.node_eq_dir_iff]
            exact fun hfile => (hcompatible e' he').1 hfile hpre
      · rw [if_neg hself]
        simp only [true_iff]
        exact ⟨hpath.1, e, List.mem_cons_self, hpath.2, fun heq => absurd heq hself⟩
    · rw [if_neg hpath, h.dir]
      constructor
      · rintro ⟨hne, e', he', hrest⟩
        exact ⟨hne, e', List.mem_cons_of_mem _ he', hrest⟩
      · rintro ⟨hne, e', he', hpre, hnode⟩
        rcases List.mem_cons.1 he' with rfl | he'
        · exact absurd ⟨hne, hpre⟩ hpath
        · exact ⟨hne, e', he', hpre, hnode⟩

theorem Holds.of_mem_iff {entries' : List Entry} (h : Holds entries nodes)
    (hmem : ∀ e, e ∈ entries' ↔ e ∈ entries) : Holds entries' nodes where
  file path content mode := by simp only [h.file, hmem]
  dir path := by simp only [h.dir, hmem]

/-- An entry of an archive has another place than the entries before it. -/
theorem Archivable.path_ne {e e' : Entry} (h : Archivable (done ++ e :: entries) zeros)
    (he' : e' ∈ done) (hne : e.path ≠ []) : e.path ≠ e'.path := by
  intro heq
  have hnodup := h.distinct
  rw [List.map_append, List.map_cons, List.filter_append,
    List.filter_cons_of_pos (by simpa using hne)] at hnodup
  refine (List.nodup_append.1 hnodup).2.2 e.path ?_ _ List.mem_cons_self rfl
  rw [List.mem_filter]
  exact ⟨List.mem_map.2 ⟨e', he', heq.symm⟩, by simpa using hne⟩

theorem Archivable.compatible {e : Entry} (h : Archivable (done ++ e :: entries) zeros) :
    ∀ e' ∈ done, Compatible e e' := by
  intro e' he'
  have he : e ∈ done ++ e :: entries := by simp
  have he'' : e' ∈ done ++ e :: entries := List.mem_append_left _ he'
  constructor
  · intro hfile hpre
    exact h.path_ne he' (h.named e he hfile) (h.parents e he e' he'' hfile hpre)
  · intro hfile hpre
    have heq := h.parents e' he'' e he hfile hpre
    exact h.path_ne he' (heq ▸ h.named e' he'' hfile) heq.symm

/-- What is on the path of a new entry is a directory or missing. -/
theorem Holds.on_path (h : Holds done nodes) {e : Entry}
    (hcompatible : ∀ e' ∈ done, Compatible e e') (hpre : path <+: e.path) :
    nodes path = none ∨ nodes path = some .dir := by
  cases hnode : nodes path with
  | none => exact .inl rfl
  | some node =>
    cases node with
    | dir => exact .inr rfl
    | file content mode =>
      obtain ⟨e', he', rfl, hfile⟩ := (h.file _ _ _).1 hnode
      exact absurd hpre ((hcompatible e' he').2 (Entry.isFile_of_node hfile))

/-- The place of a new file is free. -/
theorem Holds.free (h : Holds done nodes) {e : Entry} (hcompatible : ∀ e' ∈ done, Compatible e e')
    (hfile : e.IsFile) : nodes e.path = none := by
  rcases h.on_path hcompatible (List.prefix_refl _) with hnone | hdir
  · exact hnone
  · obtain ⟨-, e', he', hpre, -⟩ := (h.dir _).1 hdir
    exact absurd hpre ((hcompatible e' he').1 hfile)

/-- The parents of a directory are directories. -/
theorem Holds.closed (h : Holds done nodes) {parent : Place} (hdir : nodes path = some .dir)
    (hne : parent ≠ []) (hpre : parent <+: path) : nodes parent = some .dir := by
  obtain ⟨-, e, he, hpath, hnode⟩ := (h.dir _).1 hdir
  refine (h.dir _).2 ⟨hne, e, he, hpre.trans hpath, fun heq => hnode ?_⟩
  subst heq
  exact hpath.eq_of_length_le hpre.length_le

theorem prefix_dropLast_iff {α : Type} {l l' : List α} (h : l' ≠ []) :
    l <+: l'.dropLast ↔ l <+: l' ∧ l ≠ l' := by
  obtain ⟨init, last, rfl⟩ : ∃ init last, l' = init ++ [last] :=
    ⟨l'.dropLast, l'.getLast h, (List.dropLast_append_getLast h).symm⟩
  rw [List.dropLast_concat, List.prefix_concat_iff]
  constructor
  · intro hpre
    refine ⟨.inr hpre, fun heq => ?_⟩
    have := hpre.length_le
    rw [heq, List.length_append, List.length_singleton] at this
    omega
  · rintro ⟨heq | hpre, hne⟩
    · exact absurd heq hne
    · exact hpre

/-! ### Runs in which nothing fails -/

/-- No step fails and the process is not killed; a read delivers any number of bytes. -/
def steady : Adversary Weather where
  May t := ∃ weather, t = .go weather ∧ weather.fails = false
  may_default := ⟨default, rfl, rfl⟩

/-- `p` returns. -/
def Returns {α : Type} (P : Store → Prop) (p : Job α) (Q : α → Store → Prop) : Prop :=
  p.Does steady (fun _ _ => True) P Q fun _ _ => False

/-- The stream that is left and what stands at each place. -/
def At (stream : Bytes) (nodes : Place → Option Node) (s : Store) : Prop :=
  s.stream = stream ∧ ∀ path, s.tree.find? path = nodes path

namespace Returns

variable {α β : Type} {P : Store → Prop} {Q : α → Store → Prop} {stream rest : Bytes}
  {nodes : Place → Option Node}

theorem atomic {step : Weather → Store → Except ContextError α × Store}
    (h : ∀ s weather, P s → weather.fails = false →
      ∃ a, (step weather s).1 = .ok a ∧ Q a (step weather s).2) :
    Returns P (Prog.atomic step) Q := by
  refine Prog.Does.atomic (fun s weather _ _ => .single trivial) ?_ ?_
  · rintro s weather a hs ⟨_, ⟨rfl⟩, hcalm⟩ hout
    obtain ⟨a', hok, hpost⟩ := h s weather hs hcalm
    rw [hok] at hout
    cases hout
    exact hpost
  · rintro s weather e hs ⟨_, ⟨rfl⟩, hcalm⟩ hout
    obtain ⟨a', hok, -⟩ := h s weather hs hcalm
    rw [hok] at hout
    cases hout

theorem bind {p : Job α} {f : α → Job β} {K : α → Store → Prop} {Q : β → Store → Prop}
    (hp : Returns P p K) (hf : ∀ a, Returns (K a) (f a) Q) : Returns P (p >>= f) Q :=
  Prog.Does.bind hp hf

theorem pure {a : α} (h : ∀ s, P s → Q a s) : Returns P (Pure.pure a) Q :=
  Prog.Does.pure h

theorem weaken {p : Job α} {P' : Store → Prop} {Q' : α → Store → Prop} (h : Returns P' p Q')
    (hP : ∀ s, P s → P' s) (hQ : ∀ a s, Q' a s → Q a s) : Returns P p Q :=
  Prog.Does.conseq h hP hQ fun _ _ he => he

/-- What is known of a returned value may be assumed. -/
theorem known {p : Job α} {C : Prop} (h : C → Returns P p Q) : Returns (fun s => C ∧ P s) p Q :=
  Prog.Does.assuming (fun _ hs => hs.1) fun hC => (h hC).weaken (fun _ hs => hs.2) fun _ _ hs => hs

/-- A computation that has returned. -/
theorem returned (a : α) : Returns P (Prog.ofExcept (.ok a)) fun a' s => a' = a ∧ P s :=
  pure fun _ hs => ⟨rfl, hs⟩

/-! ### Reading -/

theorem readFully {count : Nat} {bytes : Bytes} (hlen : bytes.length = count) :
    Returns (At (bytes ++ rest) nodes) (readFully count)
      fun read s => read = bytes ∧ At rest nodes s := by
  refine atomic fun s weather hs hcalm => ?_
  have hle : count ≤ s.stream.length := by
    rw [hs.1, List.length_append]
    omega
  refine ⟨s.stream.take count, ?_, ?_⟩
  · simp [hcalm, hle]
  · simp only [hcalm, Bool.false_eq_true, if_false, if_pos hle]
    refine ⟨?_, ?_, hs.2⟩
    · rw [hs.1, ← hlen, List.take_left]
    · show s.stream.drop count = rest
      rw [hs.1, ← hlen, List.drop_left]

/-- Some of the zeros that are left are read, and none only when none are left. -/
theorem readSome :
    Returns (At (List.replicate zeros 0) nodes) (readSome 4096) fun chunk s =>
      ∃ count, count ≤ zeros ∧ (count = 0 → zeros = 0) ∧ chunk = List.replicate count 0 ∧
        At (List.replicate (zeros - count) 0) nodes s := by
  refine atomic fun s weather hs hcalm => ?_
  set asked := max 1 (min weather.count 4096) with hasked
  refine ⟨s.stream.take asked, by simp [hcalm, hasked], ?_⟩
  simp only [hcalm, Bool.false_eq_true, if_false]
  refine ⟨min asked zeros, Nat.min_le_right .., fun _ => by omega, ?_, ?_, hs.2⟩
  · rw [hs.1, List.take_replicate]
  · show s.stream.drop asked = _
    rw [hs.1, List.drop_replicate]
    congr 1
    omega

theorem count : Returns (At stream nodes) count fun _ => At stream nodes :=
  atomic fun _ _ hs _ => ⟨(), rfl, hs⟩

/-! ### The file system -/

/-- Parents exist: the destination or a directory. -/
def Below (nodes : Place → Option Node) (path : Place) : Prop :=
  path = [] ∨ nodes path = some .dir

theorem isDir_iff (hs : At stream nodes s) (path : Place) :
    isDir s.tree path = true ↔ Below nodes path := by
  simp [isDir, Below, hs.2]

theorem find?_put (hs : At stream nodes s) (path : Place) (node : Node) (p : Place) :
    (s.tree.put path node).find? p = Function.update nodes path (some node) p := by
  rw [Table.find?_put, Function.update_apply, hs.2]

theorem find?_modify (hs : At stream nodes s) {node : Node} (hnode : nodes path = some node)
    (f : Node → Node) (p : Place) :
    (s.tree.modify path f).find? p = Function.update nodes path (some (f node)) p := by
  rw [Table.find?_modify, Function.update_apply, hs.2]
  by_cases hp : p = path
  · subst hp
    rw [if_pos rfl, if_pos rfl, hnode, Option.map_some]
  · rw [if_neg hp, if_neg hp]

theorem mkdir (hparent : Below nodes path.dropLast) (hfree : nodes path = none) :
    Returns (At stream nodes) (mkdir path)
      fun _ => At stream (Function.update nodes path (some .dir)) := by
  refine atomic fun s weather hs hcalm => ?_
  have hdir := (isDir_iff hs _).2 hparent
  have hnone : s.tree.find? path = none := by rw [hs.2, hfree]
  refine ⟨(), by simp [hcalm, hdir, hnone], ?_⟩
  simp only [hcalm, hdir, hnone, Option.isSome_none, Bool.false_eq_true, Bool.true_eq_false,
    or_self, if_false]
  exact ⟨hs.1, find?_put hs path .dir⟩

theorem mkdirUnless (hne : path ≠ []) (hparent : Below nodes path.dropLast)
    (hpath : nodes path = none ∨ nodes path = some .dir) :
    Returns (At stream nodes) (mkdirUnless path)
      fun _ => At stream (Function.update nodes path (some .dir)) := by
  refine bind (K := fun present s => (present = true ↔ nodes path = some .dir) ∧
    At stream nodes s) ?_ fun present => ?_
  · refine Prog.Does.read (fun s present hs hread => ⟨?_, hs⟩) fun s e _ he => by simp at he
    cases hread
    rw [isDir_iff hs, Below]
    tauto
  · refine known fun hpresent => Prog.Does.when (fun habsent => ?_) fun habsent s hs => ?_
    · refine mkdir hparent ?_
      rcases hpath with hnone | hdir
      · exact hnone
      · rw [hpresent.2 hdir] at habsent
        cases habsent
    · have hdir : nodes path = some .dir := by
        rw [← hpresent]
        simpa using habsent
      rwa [← hdir, Function.update_eq_self]

/-- The places from `top` down to `top ++ below` have become directories. -/
def descend (top below : Place) (nodes : Place → Option Node) (path : Place) : Option Node :=
  if top.length < path.length ∧ path <+: top ++ below then some .dir else nodes path

theorem descend_root (below : Place) (nodes : Place → Option Node) (path : Place) :
    descend [] below nodes path =
      if path ≠ [] ∧ path <+: below then some .dir else nodes path := by
  unfold descend
  rw [List.nil_append]
  congr 1
  rw [List.length_nil, List.length_pos_iff]

theorem forEach_mkdirUnless (below : Place) {top : Place} (htop : Below nodes top)
    (hpath : ∀ path, top.length < path.length → path <+: top ++ below →
      nodes path = none ∨ nodes path = some .dir) :
    Returns (At stream nodes) (Prog.forEach (below.inits.tail.map (top ++ ·)) BuildContext.mkdirUnless)
      fun _ => At stream (descend top below nodes) := by
  induction below generalizing top nodes with
  | nil =>
    refine pure fun s hs => ⟨hs.1, fun path => ?_⟩
    have hnone : ¬ (top.length < path.length ∧ path <+: top ++ []) := by
      rintro ⟨hlen, hpre⟩
      have := hpre.length_le
      rw [List.append_nil] at this
      omega
    rw [descend, if_neg hnone, hs.2]
  | cons part below ih =>
    have hlist : (part :: below).inits.tail.map (top ++ ·) =
        (top ++ [part]) :: below.inits.tail.map ((top ++ [part]) ++ ·) := by
      have hinits : below.inits = [] :: below.inits.tail := by cases below <;> rfl
      rw [List.inits_cons, List.tail_cons, List.map_map, hinits, List.map_cons, List.tail_cons]
      congr 1
      refine List.map_congr_left fun path _ => ?_
      simp
    have happend : top ++ part :: below = (top ++ [part]) ++ below := by simp
    have hlen : (top ++ [part]).length = top.length + 1 := by simp
    rw [hlist]
    rw [happend] at hpath
    have hfirst := hpath (top ++ [part]) (by omega) (List.prefix_append ..)
    refine bind (mkdirUnless (by simp) (by simpa using htop) hfirst) fun _ => ?_
    refine (ih (.inr (Function.update_self ..)) fun path hlonger hpre => ?_).weaken (fun _ hs => hs)
      fun _ s hs => ⟨hs.1, fun path => ?_⟩
    · have hne : path ≠ top ++ [part] := fun heq => by
        rw [heq] at hlonger
        omega
      rw [Function.update_of_ne hne]
      exact hpath path (by omega) hpre
    · rw [hs.2, descend, descend, Function.update_apply, happend]
      by_cases hself : path = top ++ [part]
      · subst hself
        rw [if_neg (by omega), if_pos rfl, if_pos ⟨by omega, List.prefix_append ..⟩]
      · rw [if_neg hself]
        congr 1
        rw [eq_iff_iff, and_congr_left_iff]
        intro hpre
        constructor
        · omega
        · intro hlt
          by_contra hle
          -- a path on the way that is as long as `top ++ [part]` is `top ++ [part]`
          have hshort : path <+: top ++ [part] :=
            List.prefix_of_prefix_length_le hpre (List.prefix_append ..) (by omega)
          exact hself (hshort.eq_of_length (by omega))

/-- `mkdir_p` makes the path and its parents directories. -/
theorem mkdirP (hpath : ∀ p, p <+: path → nodes p = none ∨ nodes p = some .dir)
    (hclosed : ∀ p, nodes path = some .dir → p ≠ [] → p <+: path → nodes p = some .dir) :
    Returns (At stream nodes) (mkdirP path) fun _ => At stream (descend [] path nodes) := by
  refine bind (K := fun present s => (present = true ↔ Below nodes path) ∧
    At stream nodes s) ?_ fun present => ?_
  · refine Prog.Does.read (fun s present hs hread => ⟨?_, hs⟩) fun s e _ he => by simp at he
    cases hread
    exact isDir_iff hs path
  · refine known fun hpresent => Prog.Does.when (fun habsent => ?_) fun hthere s hs => ?_
    · have hmade : Returns (At stream nodes) _ _ := forEach_mkdirUnless path
        (Or.inl rfl : Below nodes []) fun p _ hpre => hpath p hpre
      have hmap : path.inits.tail.map ([] ++ ·) = path.inits.tail := by simp
      rwa [hmap] at hmade
    · -- the path is there already, and so are its parents
      have hbelow : Below nodes path := hpresent.1 (by simpa using hthere)
      refine ⟨hs.1, fun p => ?_⟩
      rw [hs.2, descend]
      by_cases hp : ([] : Place).length < p.length ∧ p <+: [] ++ path
      · rw [if_pos hp]
        have hne : p ≠ [] := List.ne_nil_of_length_pos hp.1
        rcases hbelow with hroot | hdir
        · rw [hroot] at hp
          exact absurd (List.prefix_nil.1 hp.2) hne
        · exact hclosed p hdir hne hp.2
      · rw [if_neg hp]

theorem openFile {path : Place} (hne : path ≠ []) (hparent : Below nodes path.dropLast)
    (hfree : nodes path = none) :
    Returns (At stream nodes) (openFile path)
      fun _ => At stream (Function.update nodes path (some (.file [] 0o600))) := by
  refine atomic fun s weather hs hcalm => ?_
  have hdir := (isDir_iff hs _).2 hparent
  have hnone : s.tree.find? path = none := by rw [hs.2, hfree]
  refine ⟨(), by simp [hcalm, hdir, hnone, hne], ?_⟩
  simp only [hcalm, hdir, hnone, hne, Bool.false_eq_true, Bool.true_eq_false, or_self, if_false]
  exact ⟨hs.1, find?_put hs path _⟩

theorem copy {mode : Nat} (hfile : nodes path = some (.file [] mode)) :
    Returns (At (content ++ rest) nodes) (copy path content.length) fun copied s =>
      copied = content.length ∧
        At rest (Function.update nodes path (some (.file content mode))) s := by
  refine atomic fun s weather hs hcalm => ?_
  have htake : s.stream.take content.length = content := by rw [hs.1, List.take_left]
  have hdrop : s.stream.drop content.length = rest := by rw [hs.1, List.drop_left]
  refine ⟨content.length, by simp [hcalm, htake], ?_⟩
  simp only [hcalm, Bool.false_eq_true, if_false, htake, hdrop]
  refine ⟨trivial, rfl, fun p => ?_⟩
  rw [appendTo, find?_modify hs hfile]
  rfl

theorem chmod {old mode : Nat} (hfile : nodes path = some (.file content old)) :
    Returns (At stream nodes) (chmod path mode)
      fun _ => At stream (Function.update nodes path (some (.file content mode))) := by
  refine atomic fun s weather hs hcalm => ⟨(), by simp [hcalm], ?_⟩
  simp only [hcalm, Bool.false_eq_true, if_false]
  refine ⟨hs.1, fun p => ?_⟩
  rw [find?_modify hs hfile]

/-! ### One entry -/

section Unpack

variable {done : List Entry} {e : Entry} (h : Holds done nodes)
  (hcompatible : ∀ e' ∈ done, Compatible e e') (hne : e.path ≠ [])

include h hcompatible

theorem unpack_directory (hbody : e.body = .directory) :
    Returns (At rest nodes) (BuildContext.mkdirP e.path) fun _ => At rest (place e nodes) := by
  have hpath : ∀ p, p <+: e.path → nodes p = none ∨ nodes p = some .dir := fun p hpre =>
    h.on_path hcompatible hpre
  refine (mkdirP hpath fun p hdir hp hpre => h.closed hdir hp hpre).weaken
    (fun s hs => hs) fun _ s hs => ⟨hs.1, fun p => ?_⟩
  rw [hs.2, descend_root, place, Entry.node, hbody, ite_self]

include hne

theorem unpack_file {old : Bool} (hbody : e.body = .file old content) :
    Returns (At (content ++ rest) nodes) (do
        BuildContext.mkdirP e.path.dropLast
        BuildContext.openFile e.path
        let copied ← BuildContext.copy e.path content.length
        if copied ≠ content.length then .raise .truncated
        else do
          let mode ← Prog.ofExcept (number (slice e.header 100 8))
          BuildContext.chmod e.path (mode % 512))
      fun _ => At rest (place e nodes) := by
  have hparents := fun p : Place => prefix_dropLast_iff (l := p) hne
  have hfree : descend [] e.path.dropLast nodes e.path = none := by
    rw [descend_root, if_neg fun hp => ((hparents _).1 hp.2).2 rfl]
    exact h.free hcompatible (by simp [Entry.IsFile, hbody])
  have hparent : Below (descend [] e.path.dropLast nodes) e.path.dropLast := by
    by_cases hroot : e.path.dropLast = []
    · exact .inl hroot
    · exact .inr (by rw [descend_root, if_pos ⟨hroot, List.prefix_refl _⟩])
  refine bind (mkdirP (fun p hpre => h.on_path hcompatible ((hparents p).1 hpre).1)
    fun p hdir hp hpre => h.closed hdir hp hpre) fun _ => ?_
  refine bind (openFile hne hparent hfree) fun _ => ?_
  refine bind (copy (Function.update_self ..)) fun copied => ?_
  refine known fun hcopied => ?_
  rw [if_neg (not_not.2 hcopied), e.number_mode]
  refine (chmod (Function.update_self ..)).weaken (fun _ hs => hs) fun _ s hs =>
    ⟨hs.1, fun p => ?_⟩
  rw [hs.2, Function.update_idem, Function.update_idem, Function.update_apply, descend_root, place,
    Entry.node, hbody]
  by_cases hself : p = e.path
  · subst hself
    rw [if_pos rfl, if_pos ⟨hne, List.prefix_refl _⟩, if_pos rfl]
  · rw [if_neg hself, if_neg hself]
    congr 1
    rw [hparents, eq_iff_iff]
    constructor
    · exact fun ⟨hp, hpre, _⟩ => ⟨hp, hpre⟩
    · exact fun ⟨hp, hpre⟩ => ⟨hp, hpre, hself⟩

/-- An entry changes the places on its path, and its data is taken off the stream. -/
theorem unpack :
    Returns (At (e.body.content ++ rest) nodes)
      (unpack e.header ⟨e.path, e.body.kind, e.size⟩) fun _ => At rest (place e nodes) := by
  cases hbody : e.body with
  | directory =>
    have hkind : isDirectory Body.directory.kind = true := rfl
    simp only [BuildContext.unpack, hkind, if_true, Body.content, List.nil_append]
    exact unpack_directory h hcompatible hbody
  | file old content =>
    have hkind : isDirectory (Body.file old content).kind = false := by cases old <;> rfl
    have hsize : e.size = content.length := by rw [Entry.size, hbody, Body.content]
    simp only [BuildContext.unpack, hkind, Bool.false_eq_true, if_false, hsize, Body.content]
    exact unpack_file h hcompatible hne hbody

end Unpack

theorem skip (size : Nat) :
    Returns (At (List.replicate (padding size) 0 ++ rest) nodes) (skip size)
      fun _ => At rest nodes := by
  refine Prog.Does.when (fun _ => ?_) fun hnone s hs => ?_
  · exact bind (readFully (List.length_replicate ..)) fun _ => pure fun s hs => hs.2
  · rwa [Nat.eq_zero_of_not_pos hnone, List.replicate_zero, List.nil_append] at hs

/-! ### The loops -/

theorem isZero_replicate (n : Nat) : isZero (List.replicate n 0) = true := by
  simp [isZero]

theorem drain (rounds : Nat) (hrounds : zeros < rounds) (htotal : total + zeros ≤ maxExpanded) :
    Returns (At (List.replicate zeros 0) nodes) (drain rounds total)
      fun _ => At [] nodes := by
  induction rounds generalizing zeros total with
  | zero => omega
  | succ rounds ih =>
    refine bind readSome fun chunk => ?_
    refine Prog.Does.of_exists fun count => known fun hcount => known fun hsome => known ?_
    rintro rfl
    by_cases hzero : count = 0
    · subst hzero
      rw [List.replicate_zero, if_pos rfl, hsome rfl]
      exact pure fun s hs => hs
    · have hne : List.replicate count (0 : UInt8) ≠ [] := by simpa using hzero
      have hadd : addTotal total count = .ok (total + count) :=
        addTotal_eq (by unfold maxExpanded at htotal; unfold maxInt64; omega)
      have hgoes : isZero (List.replicate count 0) = true ∧ total + count ≤ maxExpanded :=
        ⟨isZero_replicate count, by omega⟩
      rw [if_neg hne, List.length_replicate, hadd]
      refine bind (returned _) fun _ => known ?_
      rintro rfl
      rw [if_pos hgoes]
      exact ih (by omega) (by omega)

theorem terminate (htotal : total + zeros ≤ maxExpanded) :
    Returns (At (List.replicate 512 0 ++ List.replicate zeros 0) nodes) (terminate total)
      fun _ => At [] nodes := by
  refine bind (readFully (List.length_replicate ..)) fun header => known ?_
  rintro rfl
  rw [if_pos (isZero_replicate 512)]
  exact drain _ (by omega) htotal

/-- The checksum field of a header ends with a blank. -/
theorem isZero_header (e : Entry) : isZero e.header = false := by
  simp [isZero, Entry.header]

/-- The entries that are left are extracted one by one. -/
theorem loop (entries : List Entry) {left : Nat} {seen : List Bytes}
    (harchive : Archivable (done ++ entries) zeros) (h : Holds done nodes)
    (hleft : entries.length ≤ left)
    (htotal : total + ((entries.map Entry.weight).sum + zeros) ≤ maxExpanded)
    (hseen : ∀ name ∈ seen, ∃ e ∈ done, e.path ≠ [] ∧ name = join slash e.path) :
    Returns (At (archive entries zeros) nodes) (loop left seen total) fun _ s =>
      ∃ nodes', Holds (done ++ entries) nodes' ∧ At [] nodes' s := by
  induction entries generalizing done left total seen nodes with
  | nil =>
    have hstream : archive [] zeros =
      List.replicate 512 0 ++ (List.replicate 512 0 ++ List.replicate zeros 0) := rfl
    rw [hstream, BuildContext.loop, List.append_nil]
    refine bind (readFully (List.length_replicate ..)) fun raw => known ?_
    rintro rfl
    rw [if_pos (isZero_replicate 512)]
    refine (terminate (by simpa using htotal)).weaken (fun _ hs => hs) fun _ s hs => ⟨nodes, h, hs⟩
  | cons e entries ih =>
    obtain ⟨left, rfl⟩ : ∃ n, left = n + 1 := ⟨left - 1, by simp at hleft; omega⟩
    have hstream : archive (e :: entries) zeros = e.header ++ (e.body.content ++
        (List.replicate (padding e.size) 0 ++ archive entries zeros)) := by
      simp only [archive, List.flatMap_cons, Entry.encode, List.append_assoc]
    have hweight : e.weight = e.size + 512 + padding e.size := rfl
    rw [List.map_cons, List.sum_cons] at htotal
    have hsize : e.size < 8 ^ 11 := by
      unfold maxExpanded at htotal
      omega
    have hentries : done ++ e :: entries = (done ++ [e]) ++ entries := by simp
    have hnamed : e.IsFile → e.path ≠ [] := harchive.named e (by simp)
    have hcompatible := harchive.compatible
    have hpath_ne : ∀ {e'}, e' ∈ done → e.path ≠ [] → e.path ≠ e'.path := harchive.path_ne
    have hplaced : Holds (done ++ [e]) (place e nodes) :=
      (h.place hcompatible hnamed).of_mem_iff fun e' => by simp [or_comm]
    rw [hentries] at harchive ⊢
    rw [hstream, BuildContext.loop]
    refine bind (readFully e.length_header) fun raw => known ?_
    rintro rfl
    rw [isZero_header, if_neg (by decide)]
    refine bind count fun _ => ?_
    rw [e.parseHeader_header hsize]
    refine bind (returned _) fun header => known ?_
    rintro rfl
    dsimp only
    rw [addTotal_eq (by unfold maxExpanded at htotal; unfold maxInt64; omega)]
    refine bind (returned _) fun total' => known ?_
    rintro rfl
    rw [if_neg (by omega), if_neg fun hdata => hdata.2 (Entry.size_of_isDirectory hdata.1)]
    by_cases hroot : e.path = []
    · -- the root itself: nothing to create, and no data to skip
      have hdir := Entry.isDirectory_of_not_isFile fun hfile => hnamed hfile hroot
      have hempty := Entry.size_of_isDirectory hdir
      have hsame : place e nodes = nodes := by
        funext path
        rw [place, if_neg]
        rintro ⟨hne, hpre⟩
        rw [hroot] at hpre
        exact hne (List.prefix_nil.1 hpre)
      have hcontent : e.body.content = [] := List.length_eq_zero_iff.1 hempty
      rw [if_pos hroot, if_pos hdir, hcontent, hempty, List.nil_append]
      rw [hsame] at hplaced
      refine ih harchive hplaced (by simpa using hleft) ?_ fun name hname => ?_
      · rw [hempty] at hweight
        omega
      · obtain ⟨e', he', hrest⟩ := hseen name hname
        exact ⟨e', List.mem_append_left _ he', hrest⟩
    · have hnew : join slash e.path ∉ seen := by
        intro hmem
        obtain ⟨e', he', -, hjoin⟩ := hseen _ hmem
        exact hpath_ne he' hroot (Entry.join_path_inj hjoin)
      rw [if_neg hroot, if_neg hnew]
      refine bind (unpack h hcompatible hroot) fun _ => ?_
      refine bind (skip e.size) fun _ => ?_
      refine ih harchive hplaced (by simpa using hleft) (by omega) fun name hname => ?_
      rcases List.mem_cons.1 hname with rfl | hname
      · exact ⟨e, by simp, hroot, rfl⟩
      · obtain ⟨e', he', hrest⟩ := hseen name hname
        exact ⟨e', List.mem_append_left _ he', hrest⟩

end Returns

/-- Fields that an archiver leaves empty. -/
def noFields : Unread where
  owner := List.replicate 16 0
  mtime := List.replicate 12 0
  link := List.replicate 188 0
  tail := List.replicate 12 0
  owner_length := List.length_replicate
  mtime_length := List.length_replicate
  link_length := List.length_replicate
  tail_length := List.length_replicate

/-- `./n//t`, executable. -/
def sampleTool : Entry where
  name := [46, 47, 110, 47, 47, 116]
  leading := []
  mode := 0o755
  body := .file false [104, 105]
  unread := noFields
  name_ne_nil := by decide
  name_length := by decide
  leading_length := by decide
  name_nul := by decide
  leading_nul := by decide
  mode_lt := by decide
  safe := by decide

/-- The directory `n/` of the tool, written behind it. -/
def sampleDirectory : Entry where
  name := [110, 47]
  leading := []
  mode := 0o755
  body := .directory
  unread := noFields
  name_ne_nil := by decide
  name_length := by decide
  leading_length := by decide
  name_nul := by decide
  leading_nul := by decide
  mode_lt := by decide
  safe := by decide

end Sandcube.BuildContext
