import Sandcube.Context.Extract

/-!
# Extraction is confined and bounded

Whatever the stream holds and whatever fails, `extract` stays below the destination and within
its limits.  The three loops share one budget: `Inv` says how much of it the bytes consumed so
far and the bytes written so far have used, and every step is shown to stay within what the
total has been raised by.  The bound holds after every single step, so it also holds when the
process is killed.
-/

namespace Sandcube.BuildContext

open Sandcube.Path (Bytes slash dot join)

namespace Store

/-- The places created, by `mkdir` or by opening a new file. -/
def created (s : Store) : List Place :=
  s.history.filterMap fun
    | .mkdir path | .opened path => some path
    | _ => none

/-- The files opened for writing. -/
def opened (s : Store) : List Place :=
  s.history.filterMap fun
    | .opened path => some path
    | _ => none

/-- The number of file bytes written. -/
def written (s : Store) : Nat :=
  (s.history.map fun
    | .wrote count => count
    | _ => 0).sum

/-- The number of headers processed. -/
def headers (s : Store) : Nat :=
  s.history.count .header

end Store

/-- Two header blocks and one buffer of padding. -/
def slack : Nat := 512 + 512 + 4096

/-- The promises of `extract`, for a stream of `len` bytes. -/
structure Bounded (len : Nat) (s : Store) : Prop where
  safe : ∀ path ∈ s.created, path ≠ [] ∧ ∀ part ∈ path, Safe part
  made : ∀ path node, s.tree.find? path = some node → path ∈ s.created
  nodup : s.opened.Nodup
  written : s.written ≤ maxExpanded
  headers : s.headers ≤ maxEntries
  consumed : len ≤ s.stream.length + (maxExpanded + slack)

/-- The loop invariant: at most `spent` bytes have been consumed and at most `total` bytes
written, there is room for `left` more headers, and the opened files are among the `seen` ones. -/
structure Inv (len left : Nat) (seen : List Bytes) (spent total : Nat) (s : Store) : Prop where
  safe : ∀ path ∈ s.created, path ≠ [] ∧ ∀ part ∈ path, Safe part
  made : ∀ path node, s.tree.find? path = some node → path ∈ s.created
  nodup : s.opened.Nodup
  fresh : ∀ path ∈ s.opened, join slash path ∈ seen
  written : s.written ≤ total
  headers : s.headers + left ≤ maxEntries
  consumed : len ≤ s.stream.length + spent

section

variable {len left spent total : Nat} {seen : List Bytes} {s : Store}

section

variable (h : Inv len left seen spent total s)
include h

theorem Inv.bounded (hspent : spent ≤ maxExpanded + slack)
    (htotal : total ≤ maxExpanded) : Bounded len s where
  safe := h.safe
  made := h.made
  nodup := h.nodup
  written := le_trans h.written htotal
  headers := le_trans (Nat.le_add_right ..) h.headers
  consumed := le_trans h.consumed (Nat.add_le_add_left hspent _)

theorem Inv.mono {spent' total' : Nat} {seen' : List Bytes} (hspent : spent ≤ spent')
    (htotal : total ≤ total') (hseen : ∀ name ∈ seen, name ∈ seen') :
    Inv len left seen' spent' total' s :=
  { h with
    fresh := fun path hpath => hseen _ (h.fresh path hpath)
    written := le_trans h.written htotal
    consumed := le_trans h.consumed (Nat.add_le_add_left hspent _) }

/-- Reading moves bytes from the stream to what is consumed. -/
theorem Inv.drop (count : Nat) :
    Inv len left seen (spent + count) total { s with stream := s.stream.drop count } := by
  refine { h with consumed := ?_ }
  have := h.consumed
  simp only [List.length_drop]
  omega

/-- A new place. -/
theorem Inv.place {path : Place} (node : Node) (hne : path ≠ []) (hsafe : ∀ part ∈ path, Safe part) :
    (∀ p ∈ path :: s.created, p ≠ [] ∧ ∀ part ∈ p, Safe part) ∧
      ∀ p node', (s.tree.put path node).find? p = some node' → p ∈ path :: s.created := by
  refine ⟨List.forall_mem_cons.2 ⟨⟨hne, hsafe⟩, h.safe⟩, fun p node' hnode => ?_⟩
  rw [Table.find?_put] at hnode
  by_cases hpath : p = path
  · exact List.mem_cons.2 (.inl hpath)
  · rw [if_neg hpath] at hnode
    exact List.mem_cons_of_mem _ (h.made p node' hnode)

theorem Inv.mkdir {path : Place} (hne : path ≠ []) (hsafe : ∀ part ∈ path, Safe part) :
    Inv len left seen spent total
      { s with tree := s.tree.put path .dir, history := .mkdir path :: s.history } :=
  { h with
    safe := (h.place .dir hne hsafe).1
    made := (h.place .dir hne hsafe).2
    written := by simpa [Store.written] using h.written
    headers := by simpa [Store.headers] using h.headers }

theorem Inv.openFile {path : Place} (node : Node) (hne : path ≠ [])
    (hsafe : ∀ part ∈ path, Safe part) (hnew : join slash path ∉ seen) :
    Inv len left (join slash path :: seen) spent total
      { s with tree := s.tree.put path node, history := .opened path :: s.history } where
  safe := (h.place node hne hsafe).1
  made := (h.place node hne hsafe).2
  nodup := List.nodup_cons.2 ⟨fun hmem => hnew (h.fresh path hmem), h.nodup⟩
  fresh := List.forall_mem_cons.2
    ⟨List.mem_cons_self, fun p hp => List.mem_cons_of_mem _ (h.fresh p hp)⟩
  written := by simpa [Store.written] using h.written
  headers := by simpa [Store.headers] using h.headers
  consumed := h.consumed

/-- Changing what is in the files creates nothing. -/
theorem Inv.modify (path : Place) (f : Node → Node) :
    Inv len left seen spent total { s with tree := s.tree.modify path f } := by
  refine { h with made := fun p node hnode => ?_ }
  rw [Table.find?_modify] at hnode
  cases hfound : s.tree.find? p with
  | none => simp [hfound] at hnode
  | some old => exact h.made p old hfound

theorem Inv.append (path : Place) (bytes : Bytes) :
    Inv len left seen spent (total + bytes.length) (appendTo path bytes s) := by
  refine { h with
    made := (h.modify path _).made
    written := ?_
    headers := by simpa [appendTo, Store.headers] using h.headers }
  have := h.written
  simp only [appendTo, Store.written, List.map_cons, List.sum_cons] at this ⊢
  omega

end

theorem Inv.count (h : Inv len (left + 1) seen spent total s) :
    Inv len left seen spent total { s with history := .header :: s.history } := by
  refine { h with written := by simpa [Store.written] using h.written, headers := ?_ }
  have := h.headers
  simp only [Store.headers, List.count_cons_self] at this ⊢
  omega

end

/-! ### Errors -/

/-- The errors that `extract` raises on purpose. -/
def ContextError.Intended (e : ContextError) : Prop := e ≠ .overflow ∧ e ≠ .exhausted

instance (e : ContextError) : Decidable e.Intended := inferInstanceAs (Decidable (_ ∧ _))

theorem number_error {bytes : Bytes} {e : ContextError} (h : number bytes = .error e) :
    e = .number := by
  simp only [number] at h
  split_ifs at h <;> cases h <;> rfl

theorem parseHeader_error {header : Bytes} {e : ContextError}
    (h : parseHeader header = .error e) : e.Intended := by
  unfold parseHeader at h
  cases hsum : number (slice header 148 8) with
  | error e' =>
    simp only [hsum, Except.bind] at h
    cases h
    rw [number_error hsum]
    decide
  | ok checksum =>
    simp only [hsum, Except.bind] at h
    split_ifs at h
    · cases h; decide
    · cases h; decide
    · cases h; decide
    · cases hsize : number (slice header 124 12) with
      | ok size => simp [hsize, Except.map] at h
      | error e' =>
        simp only [hsize, Except.map] at h
        cases h
        rw [number_error hsize]
        decide

/-! ### The judgement -/

/-- `p` keeps the promises at every step and raises only what it is meant to; the postcondition is
owed when it returns. -/
def Keeps {α : Type} (len : Nat) (P : Store → Prop) (p : Job α) (Q : α → Store → Prop) : Prop :=
  p.Does .any (fun _ s' => Bounded len s') P Q fun e s => e.Intended ∧ Bounded len s

namespace Keeps

variable {α β : Type} {len left spent total : Nat} {seen : List Bytes} {P : Store → Prop}
  {Q : α → Store → Prop}

/-- The rule for a step: what it leaves keeps the promises, returned or raised. -/
theorem atomic {step : Weather → Store → Except ContextError α × Store}
    (hok : ∀ s weather a, P s → (step weather s).1 = .ok a →
      Q a (step weather s).2 ∧ Bounded len (step weather s).2)
    (herr : ∀ s weather e, P s → (step weather s).1 = .error e →
      e.Intended ∧ Bounded len (step weather s).2) :
    Keeps len P (Prog.atomic step) Q := by
  refine Prog.Does.atomic ?_ ?_ ?_
  · intro s weather hs _
    cases hout : (step weather s).1 with
    | ok a => exact .single (hok s weather a hs hout).2
    | error e => exact .single (herr s weather e hs hout).2
  · exact fun s weather a hs _ hout => (hok s weather a hs hout).1
  · exact fun s weather e hs _ hout => herr s weather e hs hout

theorem bind {p : Job α} {f : α → Job β} {K : α → Store → Prop} {Q : β → Store → Prop}
    (hp : Keeps len P p K) (hf : ∀ a, Keeps len (K a) (f a) Q) : Keeps len P (p >>= f) Q :=
  Prog.Does.bind hp hf

theorem pure {a : α} (h : ∀ s, P s → Q a s) : Keeps len P (Pure.pure a) Q :=
  Prog.Does.pure h

theorem raise {e : ContextError} (he : e.Intended) (h : ∀ s, P s → Bounded len s) :
    Keeps len P (Prog.raise e : Job α) Q :=
  Prog.Does.raise fun s hs => ⟨he, h s hs⟩

theorem ofExcept {x : Except ContextError α} (hok : ∀ a s, x = .ok a → P s → Q a s)
    (herr : ∀ e, x = .error e → e.Intended) (h : ∀ s, P s → Bounded len s) :
    Keeps len P (Prog.ofExcept x) Q :=
  Prog.Does.ofExcept hok fun e s he hs => ⟨herr e he, h s hs⟩

theorem weaken {p : Job α} {P' : Store → Prop} {Q' : α → Store → Prop} (h : Keeps len P' p Q')
    (hP : ∀ s, P s → P' s) (hQ : ∀ a s, Q' a s → Q a s) : Keeps len P p Q :=
  Prog.Does.conseq h hP hQ fun _ _ he => he

/-- What is known of a returned value may be assumed. -/
theorem known {p : Job α} {C : Prop} (h : C → Keeps len P p Q) :
    Keeps len (fun s => C ∧ P s) p Q :=
  Prog.Does.assuming (fun _ hs => hs.1) fun hC => (h hC).weaken (fun _ hs => hs.2) fun _ _ hs => hs

/-- Far from the bounds of `Int64` the total does not overflow. -/
theorem addTotal {count : Nat} (h : total + count ≤ maxInt64) :
    Keeps len P (Prog.ofExcept (addTotal total count))
      fun total' s => total' = total + count ∧ P s := by
  rw [addTotal_eq h]
  exact pure fun s hs => ⟨rfl, hs⟩

/-! ### Reading -/

theorem readFully {count : Nat} (hspent : spent + count ≤ maxExpanded + slack)
    (htotal : total ≤ maxExpanded) :
    Keeps len (Inv len left seen spent total) (readFully count)
      fun _ => Inv len left seen (spent + count) total := by
  refine atomic ?_ ?_
  · intro s weather bytes hs hout
    split_ifs at hout ⊢ with hfails hlen
    have := hs.drop count
    exact ⟨this, this.bounded hspent htotal⟩
  · intro s weather e hs hout
    split_ifs at hout ⊢ with hfails hlen
    · cases hout
      refine ⟨by decide, ((hs.drop (min weather.count count)).bounded ?_ htotal)⟩
      omega
    · cases hout
      have hdrop : s.stream.drop count = [] := List.drop_eq_nil_of_le (by omega)
      have := hs.drop count
      rw [hdrop] at this
      exact ⟨by decide, this.bounded hspent htotal⟩

theorem readSome (hspent : spent + 4096 ≤ maxExpanded + slack) (htotal : total ≤ maxExpanded) :
    Keeps len (Inv len left seen spent total) (readSome 4096)
      fun chunk s => chunk.length ≤ 4096 ∧ Inv len left seen (spent + chunk.length) total s := by
  refine atomic ?_ ?_
  · intro s weather chunk hs hout
    dsimp only at hout ⊢
    split_ifs at hout ⊢ with hfails
    cases hout
    set count := max 1 (min weather.count 4096) with hcount
    have hle : count ≤ 4096 := by omega
    have hdrop : s.stream.drop count = s.stream.drop (s.stream.take count).length := by
      rw [List.length_take]
      rcases le_total count s.stream.length with h | h
      · rw [min_eq_left h]
      · rw [min_eq_right h, List.drop_length, List.drop_eq_nil_of_le h]
    have hchunk : (s.stream.take count).length ≤ 4096 := le_trans (List.length_take_le ..) hle
    have := hs.drop (s.stream.take count).length
    rw [← hdrop] at this
    exact ⟨⟨hchunk, this⟩, this.bounded (by omega) htotal⟩
  · intro s weather e hs hout
    dsimp only at hout ⊢
    split_ifs at hout ⊢ with hfails
    cases hout
    refine ⟨by decide, (hs.drop (max 1 (min weather.count 4096))).bounded ?_ htotal⟩
    omega

/-! ### The file system -/

section FileSystem

variable {path : Place} (hspent : spent ≤ maxExpanded + slack) (htotal : total ≤ maxExpanded)

include hspent htotal

theorem mkdir (hne : path ≠ []) (hsafe : ∀ part ∈ path, Safe part) :
    Keeps len (Inv len left seen spent total) (mkdir path)
      fun _ => Inv len left seen spent total := by
  refine atomic ?_ ?_
  · intro s weather u hs hout
    split_ifs at hout ⊢ with hfails
    have := hs.mkdir hne hsafe
    exact ⟨this, this.bounded hspent htotal⟩
  · intro s weather e hs hout
    split_ifs at hout ⊢ with hfails
    cases hout
    exact ⟨by decide, hs.bounded hspent htotal⟩

theorem mkdirUnless (hne : path ≠ []) (hsafe : ∀ part ∈ path, Safe part) :
    Keeps len (Inv len left seen spent total) (mkdirUnless path)
      fun _ => Inv len left seen spent total := by
  refine bind (K := fun _ => Inv len left seen spent total) ?_ fun present => ?_
  · exact Prog.Does.read (fun s a hs _ => hs) fun s e _ he => by simp at he
  · exact Prog.Does.when (fun _ => mkdir hspent htotal hne hsafe) fun _ s hs => hs

theorem mkdirP (hsafe : ∀ part ∈ path, Safe part) :
    Keeps len (Inv len left seen spent total) (mkdirP path)
      fun _ => Inv len left seen spent total := by
  refine bind (K := fun _ => Inv len left seen spent total) ?_ fun present => ?_
  · exact Prog.Does.read (fun s a hs _ => hs) fun s e _ he => by simp at he
  · refine Prog.Does.when (fun _ => ?_) fun _ s hs => hs
    refine Prog.Does.forEach (I := fun _ => Inv len left seen spent total) ?_
    intro parent rest hsuffix
    obtain ⟨hne, hparent⟩ := mem_tail_inits.1 (hsuffix.subset List.mem_cons_self)
    exact mkdirUnless hspent htotal hne fun part hpart => hsafe part (hparent.subset hpart)

theorem openFile (hne : path ≠ []) (hsafe : ∀ part ∈ path, Safe part)
    (hnew : join slash path ∉ seen) :
    Keeps len (Inv len left seen spent total) (openFile path)
      fun _ => Inv len left (join slash path :: seen) spent total := by
  refine atomic ?_ ?_
  · intro s weather u hs hout
    split_ifs at hout ⊢ with hfails
    cases hnode : s.tree.find? path with
    | none =>
      have := hs.openFile (.file [] 0o600) hne hsafe hnew
      exact ⟨this, this.bounded hspent htotal⟩
    | some node =>
      cases node with
      | dir => simp [hnode] at hout
      | file content mode =>
        have := hs.openFile (.file [] mode) hne hsafe hnew
        exact ⟨this, this.bounded hspent htotal⟩
  · intro s weather e hs hout
    split_ifs at hout ⊢ with hfails
    · cases hout
      exact ⟨by decide, hs.bounded hspent htotal⟩
    · cases hnode : s.tree.find? path with
      | none => simp [hnode] at hout
      | some node =>
        cases node with
        | dir =>
          simp only [hnode] at hout ⊢
          cases hout
          exact ⟨by decide, hs.bounded hspent htotal⟩
        | file content mode => simp [hnode] at hout

theorem chmod (mode : Nat) :
    Keeps len (Inv len left seen spent total) (chmod path mode)
      fun _ => Inv len left seen spent total := by
  refine atomic ?_ ?_
  · intro s weather u hs hout
    split_ifs at hout ⊢ with hfails
    exact ⟨hs.modify path _, (hs.modify path _).bounded hspent htotal⟩
  · intro s weather e hs hout
    split_ifs at hout ⊢ with hfails
    cases hout
    exact ⟨by decide, hs.bounded hspent htotal⟩

theorem count : Keeps len (Inv len (left + 1) seen spent total) count
    fun _ => Inv len left seen spent total := by
  refine atomic ?_ ?_
  · intro s weather u hs _
    exact ⟨hs.count, hs.count.bounded hspent htotal⟩
  · intro s weather e _ hout
    cases hout

end FileSystem

theorem copy {path : Place} {size : Nat} (hspent : spent + size ≤ maxExpanded + slack)
    (htotal : total + size ≤ maxExpanded) :
    Keeps len (Inv len left seen spent total) (copy path size)
      fun _ => Inv len left seen (spent + size) (total + size) := by
  refine atomic ?_ ?_
  · intro s weather copied hs hout
    dsimp only at hout ⊢
    split_ifs at hout ⊢ with hfails
    have hlen : (s.stream.take size).length ≤ size := List.length_take_le ..
    have := ((hs.append path (s.stream.take size)).drop size).mono le_rfl
      (Nat.add_le_add_left hlen total) fun _ h => h
    exact ⟨this, this.bounded hspent htotal⟩
  · intro s weather e hs hout
    dsimp only at hout ⊢
    split_ifs at hout ⊢ with hfails
    cases hout
    have hlen : ((s.stream.take (min weather.count size)).take weather.wrote).length ≤ size := by
      rw [List.length_take, List.length_take]
      omega
    refine ⟨by decide, (((hs.append path _).drop (min weather.count size)).bounded ?_ ?_)⟩
    · omega
    · omega

/-! ### One entry -/

theorem unpack {raw : Bytes} {header : Header} (hspent : spent + header.size ≤ maxExpanded + slack)
    (htotal : total + header.size ≤ maxExpanded) (hne : header.parts ≠ [])
    (hsafe : ∀ part ∈ header.parts, Safe part) (hnew : join slash header.parts ∉ seen) :
    Keeps len (Inv len left seen spent total) (unpack raw header) fun _ =>
      Inv len left (join slash header.parts :: seen) (spent + header.size)
        (total + header.size) := by
  have hspent' : spent ≤ maxExpanded + slack := by omega
  have htotal' : total ≤ maxExpanded := by omega
  unfold BuildContext.unpack
  split_ifs with hdir
  · refine (mkdirP hspent' htotal' hsafe).weaken (fun s hs => hs) fun _ s hs => ?_
    exact hs.mono (Nat.le_add_right ..) (Nat.le_add_right ..) fun _ => List.mem_cons_of_mem _
  · have hsafe' : ∀ part ∈ header.parts.dropLast, Safe part := fun part hpart =>
      hsafe part (List.mem_of_mem_dropLast hpart)
    refine bind (mkdirP hspent' htotal' hsafe') fun _ => ?_
    refine bind (openFile hspent' htotal' hne hsafe hnew) fun _ => ?_
    refine bind (copy hspent htotal) fun copied => ?_
    split_ifs with hcopied
    · exact raise (by decide) fun s hs => hs.bounded hspent htotal
    · refine bind (ofExcept (fun _ s _ hs => hs) ?_ fun s hs => hs.bounded hspent htotal)
        fun mode => chmod hspent htotal _
      intro e he
      rw [number_error he]
      decide

theorem skip {size : Nat} (hspent : spent + padding size ≤ maxExpanded + slack)
    (htotal : total ≤ maxExpanded) :
    Keeps len (Inv len left seen spent total) (skip size) fun _ =>
      Inv len left seen (spent + padding size) total := by
  refine Prog.Does.when (fun _ => ?_) fun _ s hs => ?_
  · exact bind (readFully hspent htotal) fun _ => pure fun s hs => hs
  · exact hs.mono (Nat.le_add_right ..) le_rfl fun _ h => h

theorem parse {raw : Bytes} (hspent : spent ≤ maxExpanded + slack) (htotal : total ≤ maxExpanded) :
    Keeps len (Inv len left seen spent total) (Prog.ofExcept (parseHeader raw))
      fun header s => parseHeader raw = .ok header ∧ Inv len left seen spent total s :=
  ofExcept (fun _ _ hparse hs => ⟨hparse, hs⟩) (fun _ herr => parseHeader_error herr)
    fun _ hs => hs.bounded hspent htotal

/-! ### The loops -/

/-- Padding: two blocks and the padding so far are consumed, and no more than the total allows. -/
theorem drain {wrote : Nat} (hwrote : wrote ≤ maxExpanded) (rounds : Nat)
    (htotal : total ≤ maxExpanded) (hrounds : maxExpanded + 1 - total ≤ rounds) :
    Keeps len (Inv len left seen (total + 1024) wrote) (drain rounds total)
      fun _ => Bounded len := by
  have hslack : slack = 5120 := rfl
  induction rounds generalizing total with
  | zero => omega
  | succ rounds ih =>
    refine bind (readSome (by omega) hwrote) fun chunk => ?_
    split_ifs with hend
    · refine pure fun s hs => hs.2.bounded ?_ hwrote
      have := hs.1
      omega
    · refine known fun hchunk => ?_
      refine bind (addTotal (by unfold maxInt64; unfold maxExpanded at htotal; omega)) fun _ => ?_
      refine known ?_
      rintro rfl
      split_ifs with hzero
      · have hpos : 0 < chunk.length := List.length_pos_iff.2 hend
        refine (ih hzero.2 (by omega)).weaken (fun s hs => ?_) fun _ s hs => hs
        rwa [show total + 1024 + chunk.length = total + chunk.length + 1024 by omega] at hs
      · exact raise (by decide) fun s hs => hs.bounded (by omega) hwrote

theorem terminate (htotal : total ≤ maxExpanded) :
    Keeps len (Inv len left seen (total + 512) total) (terminate total) fun _ => Bounded len := by
  have hslack : slack = 5120 := rfl
  refine bind (readFully (by omega) htotal) fun header => ?_
  split_ifs with hzero
  · exact drain htotal _ htotal le_rfl
  · exact raise (by decide) fun s hs => hs.bounded (by omega) htotal

theorem loop (left : Nat) (seen : List Bytes) (htotal : total ≤ maxExpanded) :
    Keeps len (Inv len left seen total total) (loop left seen total) fun _ => Bounded len := by
  have hslack : slack = 5120 := rfl
  induction left generalizing seen total with
  | zero =>
    refine bind (readFully (by omega) htotal) fun raw => ?_
    split_ifs with hzero
    · exact terminate htotal
    · exact raise (by decide) fun s hs => hs.bounded (by omega) htotal
  | succ left ih =>
    refine bind (readFully (by omega) htotal) fun raw => ?_
    split_ifs with hzero
    · exact terminate htotal
    · have hspent : total + 512 ≤ maxExpanded + slack := by omega
      refine bind (count hspent htotal) fun _ => ?_
      refine bind (parse hspent htotal) fun header => ?_
      refine known fun hparse => ?_
      have hsize := Header.size_lt hparse
      have hpad : padding header.size < 512 := Nat.mod_lt _ (by decide)
      refine bind (addTotal (by unfold maxInt64; unfold maxExpanded at htotal; omega)) fun _ => ?_
      refine known ?_
      rintro rfl
      have hbounded : ∀ s, Inv len left seen (total + 512) total s → Bounded len s := fun s hs =>
        hs.bounded hspent htotal
      -- the checks on the header, in the order of the source
      split_ifs with hlarge hdata hroot hdir hdup
      · exact raise (by decide) hbounded
      · exact raise (by decide) hbounded
      · refine (ih seen (by omega)).weaken (fun s hs => ?_) fun _ s hs => hs
        exact hs.mono (by omega) (by omega) fun _ h => h
      · exact raise (by decide) hbounded
      · exact raise (by decide) hbounded
      · refine bind (unpack (by omega) (by omega) hroot (Header.safe_of_parse hparse) hdup)
          fun _ => ?_
        refine bind (skip (by omega) (by omega)) fun _ => ?_
        refine (ih _ (by omega)).weaken (fun s hs => ?_) fun _ s hs => hs
        exact hs.mono (by omega) (by omega) fun _ h => h

end Keeps

/-- Nothing has been done yet. -/
theorem Inv.start (stream : Bytes) :
    Inv stream.length maxEntries [] 0 0 (Store.start stream) where
  safe _ h := absurd h List.not_mem_nil
  made _ _ h := by simp [Store.start] at h
  nodup := List.nodup_nil
  fresh _ h := absurd h List.not_mem_nil
  written := le_rfl
  headers := by simp [Store.headers, Store.start]
  consumed := by simp [Store.start]

/-- For every stream and every behaviour of the environment, `extract` on an empty destination
creates only safe places below it, opens no file twice, writes at most `MAX_EXPANDED` file bytes,
processes at most `MAX_ENTRIES` headers, consumes at most a constant number of bytes more than
`MAX_EXPANDED`, does not overflow, and ends by itself.  Files and directories are all that `Node`
has. -/
theorem extract_confined (stream : Bytes) (fates : List (Fate Weather)) :
    Bounded stream.length (extract (.start stream) fates).state ∧
      (extract (.start stream) fates).outcome ≠ .raised .overflow ∧
      (extract (.start stream) fates).outcome ≠ .raised .exhausted := by
  have hkeeps : Keeps stream.length _ _ _ := Keeps.loop maxEntries [] (Nat.zero_le maxExpanded)
  have hinv := Inv.start stream
  obtain ⟨-, hsteps, hend⟩ := hkeeps (.start stream) fates (Adversary.allows_any fates) hinv
  constructor
  · -- the last step left a bounded store, or there was none
    rcases Relation.ReflTransGen.cases_tail hsteps with heq | ⟨_, _, hlast⟩
    · rw [extract, heq]
      exact hinv.bounded (Nat.zero_le _) (Nat.zero_le _)
    · exact hlast
  · have hintended : ∀ e, (extract (.start stream) fates).outcome = .raised e → e.Intended := by
      intro e hout
      rw [extract] at hout
      rw [hout] at hend
      exact hend.1
    exact ⟨fun hout => (hintended _ hout).1 rfl, fun hout => (hintended _ hout).2 rfl⟩

end Sandcube.BuildContext
