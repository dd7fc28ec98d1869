import Sandcube.Service.ProcessBody

/-!
# An idempotency key on a process request

A body that is accepted without a key, sent with one.  The service then passes on what its parser
has kept of the body: a hash, written out again and longer by the request id.  The adapter takes
the new text when it fits, and reads the same request from it when collapsing repeated names to
the first place and the last value makes no difference to it (`keyed_body_iff`); a body that
spells no field twice is such a body (`reading_kept`).
-/

namespace Sandcube

open Go (Exec Endpoint execStruct fieldFor foldName isString isInt isStrings isStringMap readString
  readInt readStrings readStringMap addEntries overwrite StringMap)

namespace Json

variable {ms : List (String × Json)}
variable {name : String} {value : Json} {m : String × Json} {ms : List (String × Json)}

/-! ### What a hash keeps -/

theorem mem_of_find?_hash (h : (hash ms).find? name = some value) : (name, value) ∈ ms := by
  have hgen : ∀ (ms : List (String × Json)) (t : Table String Json),
      (ms.foldl (fun hash member => hash.put member.1 member.2) t).find? name = some value →
        (name, value) ∈ ms ∨ t.find? name = some value := by
    intro ms
    induction ms with
    | nil => exact fun t ht => .inr ht
    | cons m ms ih =>
      intro t ht
      rcases ih _ ht with hmem | hfound
      · exact .inl (List.mem_cons_of_mem _ hmem)
      · rw [Table.find?_put] at hfound
        by_cases hname : name = m.1
        · rw [if_pos hname, Option.some_inj] at hfound
          left
          rw [hname, ← hfound]
          exact List.mem_cons_self
        · rw [if_neg hname] at hfound
          exact .inr hfound
  rcases hgen ms .empty h with hmem | hempty
  · exact hmem
  · simp at hempty

theorem mem_of_mem_hash (h : m ∈ (hash ms).rows) : m ∈ ms :=
  mem_of_find?_hash ((Table.find?_eq_some_iff_mem _ _ _).2 h)

theorem mem_keptMembers (h : m ∈ keptMembers ms) :
    ∃ value, (m.1, value) ∈ ms ∧ m.2 = kept value := by
  induction ms with
  | nil => simp [keptMembers] at h
  | cons first ms ih =>
    obtain ⟨name, value⟩ := first
    rw [keptMembers, List.mem_cons] at h
    rcases h with rfl | h
    · exact ⟨value, List.mem_cons_self, rfl⟩
    · obtain ⟨value', hmem, hkept⟩ := ih h
      exact ⟨value', List.mem_cons_of_mem _ hmem, hkept⟩

theorem keys_keptMembers (ms : List (String × Json)) :
    (keptMembers ms).map Prod.fst = ms.map Prod.fst := by
  induction ms with
  | nil => rfl
  | cons m ms ih =>
    obtain ⟨name, value⟩ := m
    rw [keptMembers, List.map_cons, List.map_cons, ih]

/-- Members without repeated names stay as they are. -/
theorem rows_hash_of_nodup (h : (ms.map Prod.fst).Nodup) : (hash ms).rows = ms := by
  have hgen : ∀ (ms : List (String × Json)) (t : Table String Json),
      (t.keys ++ ms.map Prod.fst).Nodup →
        (ms.foldl (fun hash member => hash.put member.1 member.2) t).rows = t.rows ++ ms := by
    intro ms
    induction ms with
    | nil => exact fun t _ => (List.append_nil _).symm
    | cons m ms ih =>
      intro t hnodup
      have hnew : m.1 ∉ t.keys := fun hmem =>
        (List.nodup_append.1 hnodup).2.2 _ hmem _ List.mem_cons_self rfl
      have hrows := t.rows_put_of_not_mem hnew m.2
      rw [List.foldl_cons, ih _ ?_, hrows, List.append_assoc, List.singleton_append]
      rw [Table.keys, hrows, List.map_append, List.append_assoc]
      exact hnodup
  exact hgen ms .empty (by simpa [Table.keys, Table.empty] using h)

end Json

namespace Go

open Json (kept keptItems keptMembers hash)

/-! ### Values keep their type -/

@[simp]
theorem isString_kept (value : Json) : isString value.kept = isString value := by
  cases value <;> simp [kept, isString]

@[simp]
theorem isInt_kept (value : Json) : isInt value.kept = isInt value := by
  cases value <;> simp [kept, isInt]

theorem isStrings_kept (h : isStrings value = true) : isStrings value.kept = true := by
  cases value with
  | arr items =>
    simp only [kept, isStrings] at h ⊢
    induction items with
    | nil => rfl
    | cons item items ih =>
      rw [List.all_cons, Bool.and_eq_true] at h
      rw [keptItems, List.all_cons, isString_kept, h.1, ih h.2, Bool.and_self]
  | null => rfl
  | _ => simp [isStrings] at h

theorem isStringMap_kept (h : isStringMap value = true) : isStringMap value.kept = true := by
  cases value with
  | obj ms =>
    simp only [kept, isStringMap, List.all_eq_true] at h ⊢
    intro m hm
    obtain ⟨value, hmem, hkept⟩ := Json.mem_keptMembers (Json.mem_of_mem_hash hm)
    rw [hkept, isString_kept]
    exact h _ hmem
  | null => rfl
  | _ => simp [isStringMap] at h

theorem fits_kept (h : execStruct.Fits (name, value)) : execStruct.Fits (name, value.kept) := by
  obtain ⟨field, hfield, haccepts⟩ := h
  refine ⟨field, hfield, ?_⟩
  simp only [execStruct] at haccepts ⊢
  split_ifs at haccepts ⊢
  · rwa [isString_kept]
  · exact isStrings_kept haccepts
  · rwa [isString_kept]
  · exact isStringMap_kept haccepts
  · rwa [isInt_kept]

/-! ### Values keep their meaning -/

@[simp]
theorem readString_kept (old : String) (value : Json) :
    readString old value.kept = readString old value := by
  cases value <;> rfl

@[simp]
theorem readInt_kept (old : ℤ) (value : Json) : readInt old value.kept = readInt old value := by
  cases value <;> rfl

theorem readStrings_kept (old : Slice) (h : isStrings value = true) :
    readStrings old value.kept = readStrings old value := by
  cases value with
  | arr items =>
    have hitems : keptItems items = items := by
      rw [isStrings] at h
      induction items with
      | nil => rfl
      | cons item items ih =>
        rw [List.all_cons, Bool.and_eq_true] at h
        rw [keptItems, ih h.2]
        cases item with
        | str | null => rfl
        | _ => simp [isString] at h
    rw [kept, hitems]
  | null => rfl
  | _ => simp [isStrings] at h

/-- An entry of the map comes from the member that a hash keeps. -/
theorem addEntries_apply (old : StringMap) (ms : List (String × Json)) (name : String) :
    addEntries old ms name =
      match (hash ms).find? name with
      | some value => some (readString "" value)
      | none => old name := by
  have hgen : ∀ (ms : List (String × Json)) (map : StringMap) (t : Table String Json),
      (∀ name, map name = match t.find? name with
        | some value => some (readString "" value)
        | none => old name) →
      ∀ name, addEntries map ms name =
        match (ms.foldl (fun hash member => hash.put member.1 member.2) t).find? name with
        | some value => some (readString "" value)
        | none => old name := by
    intro ms
    induction ms with
    | nil => exact fun map t h => h
    | cons m ms ih =>
      intro map t h
      refine ih _ _ fun name => ?_
      dsimp only
      rw [Function.update_apply, Table.find?_put]
      by_cases hname : name = m.1
      · rw [if_pos hname, if_pos hname]
      · rw [if_neg hname, if_neg hname, h]
  exact hgen ms old .empty (fun _ => rfl) name

theorem addEntries_keptMembers (old : StringMap) (ms : List (String × Json)) :
    addEntries old (keptMembers ms) = addEntries old ms := by
  induction ms generalizing old with
  | nil => rfl
  | cons m ms ih =>
    obtain ⟨name, value⟩ := m
    simp only [keptMembers, addEntries, List.foldl_cons, readString_kept] at ih ⊢
    exact ih _

theorem readStringMap_kept (old : StringMap) (h : isStringMap value = true) :
    readStringMap old value.kept = readStringMap old value := by
  cases value with
  | obj ms =>
    have hrows : hash (hash (keptMembers ms)).rows = hash (keptMembers ms) :=
      Table.ext (Json.rows_hash_of_nodup (hash (keptMembers ms)).nodup)
    rw [kept, readStringMap, readStringMap, ← addEntries_keptMembers old ms]
    funext name
    rw [addEntries_apply, addEntries_apply, hrows]
  | null => rfl
  | _ => simp [isStringMap] at h

theorem set_kept (e : Exec) (h : execStruct.Fits (name, value)) :
    execStruct.set e (name, value.kept) = execStruct.set e (name, value) := by
  obtain ⟨field, hfield, haccepts⟩ := h
  simp only [Struct.set, hfield]
  simp only [execStruct] at haccepts ⊢
  split_ifs at haccepts ⊢
  · rw [readString_kept]
  · rw [readStrings_kept _ haccepts]
  · rw [readString_kept]
  · rw [readStringMap_kept _ haccepts]
  · rw [readInt_kept]

theorem foldl_set_keptMembers (e : Exec) (h : ∀ m ∈ ms, execStruct.Fits m) :
    (keptMembers ms).foldl execStruct.set e = ms.foldl execStruct.set e := by
  induction ms generalizing e with
  | nil => rfl
  | cons m ms ih =>
    obtain ⟨name, value⟩ := m
    rw [List.forall_mem_cons] at h
    rw [keptMembers, List.foldl_cons, List.foldl_cons, set_kept e h.1, ih _ h.2]

/-! ### Requests that differ in their request id -/

/-- The same command, directory, environment and timeout. -/
structure Exec.Same (e e' : Exec) : Prop where
  command : e.command.values = e'.command.values
  cwd : e.cwd = e'.cwd
  env : e.env = e'.env
  timeout : e.timeout = e'.timeout

theorem Exec.Same.trans {e e' e'' : Exec} (h : e.Same e') (h' : e'.Same e'') : e.Same e'' :=
  ⟨h.command.trans h'.command, h.cwd.trans h'.cwd, h.env.trans h'.env,
    h.timeout.trans h'.timeout⟩

theorem Exec.Same.symm {e e' : Exec} (h : e.Same e') : e'.Same e :=
  ⟨h.command.symm, h.cwd.symm, h.env.symm, h.timeout.symm⟩

theorem Exec.Same.settle {e e' : Exec} (h : e.Same e') (endpoint : Endpoint) :
    (endpoint.settle e).Same (endpoint.settle e') := by
  cases endpoint with
  | processes => exact h
  | exec =>
    simp only [Endpoint.settle, h.timeout]
    split_ifs
    · exact ⟨h.command, h.cwd, h.env, rfl⟩
    · exact h

theorem Exec.Same.checks {e e' : Exec} (h : e.Same e') (endpoint : Endpoint) :
    endpoint.Checks e ↔ endpoint.Checks e' := by
  cases endpoint <;>
    simp only [Endpoint.Checks, Exec.Sound, h.command, h.cwd, h.timeout]

/-- The request id is a field of its own. -/
theorem set_requestId_same (e : Exec) (value : String) :
    (execStruct.set e ("request_id", .str value)).Same e :=
  ⟨rfl, rfl, rfl, rfl⟩

theorem fits_requestId (value : String) : execStruct.Fits ("request_id", .str value) :=
  ⟨"request_id", rfl, rfl⟩

/-- The request that members say. -/
def reading (ms : List (String × Json)) : Exec := ms.foldl execStruct.set {}

theorem accept_eq_ok {endpoint : Endpoint} {text : Text} {e : Exec}
    (hwritten : text.written = some (.obj ms)) :
    endpoint.accept text = .ok e ↔
      text.size ≤ 64 * 1024 ∧ (∀ m ∈ ms, execStruct.Fits m) ∧ e = endpoint.settle (reading ms) ∧
        endpoint.Checks e := by
  unfold Endpoint.accept
  cases hdecode : execStruct.decode {} text with
  | error err =>
    simp only [reduceCtorEq, false_iff]
    rintro ⟨hsize, hfits, -⟩
    rw [(Struct.decode_obj_eq_ok hwritten).2 ⟨hsize, hfits, rfl⟩] at hdecode
    cases hdecode
  | ok e' =>
    obtain ⟨hsize, hfits, rfl⟩ := (Struct.decode_obj_eq_ok hwritten).1 hdecode
    by_cases hchecks : endpoint.Checks (endpoint.settle (ms.foldl execStruct.set {}))
    · simp only [if_pos hchecks, Except.ok.injEq]
      constructor
      · rintro rfl
        exact ⟨hsize, hfits, rfl, hchecks⟩
      · exact fun h => h.2.2.1.symm
    · simp only [if_neg hchecks, reduceCtorEq, false_iff]
      rintro ⟨-, -, rfl, h⟩
      exact hchecks h

end Go

namespace Service

open Go (reading)

/-- A keyed text: what the service writes for a body with the given members. -/
def keyedText (hexdigest : String → String) (id path key : String) (ms : List (String × Json)) :
    Text :=
  (Json.obj (addMember (kept ms) "request_id" (requestId hexdigest id path key))).toText

theorem fits_of_mem_kept (h : ∀ m ∈ ms, execStruct.Fits m) : ∀ m ∈ kept ms, execStruct.Fits m := by
  intro m hm
  obtain ⟨name, value⟩ := m
  obtain ⟨written, hmem, rfl⟩ := Json.mem_keptMembers (Json.mem_of_mem_hash hm)
  exact Go.fits_kept (h _ hmem)

/-- Two environments, which the adapter merges. -/
def mergedMembers : List (String × Json) :=
  [("command", .arr [.str "true"]), ("env", .obj [("A", .str "1")]),
    ("env", .obj [("B", .str "2")])]

def mergedBody : Text := (Json.obj mergedMembers).toText

/-- A command of one long word. -/
def longMembers : List (String × Json) :=
  [("command", .arr [.str (String.ofList (List.replicate 65520 'a'))])]

def longBody : Text := (Json.obj longMembers).toText

/-- A body of 64 KiB leaves no room for the request id. -/
theorem keyed_body_long (hexdigest : String → String) (id path key : String) :
    longBody.size = 64 * 1024 ∧ 64 * 1024 < (keyedText hexdigest id path key longMembers).size := by
  have hquote := Json.quote_replicate 65520 (c := 'a') (by decide)
  have hword : Json.byteSize (List.replicate 65520 'a') = 65520 := by
    rw [Json.byteSize_replicate]
    rfl
  have hkept : kept longMembers = longMembers := rfl
  constructor
  · simp only [longBody, Json.toText, longMembers, Json.render, Json.renderMembers,
      Json.renderItems, hquote, Json.byteSize_append, Json.byteSize_cons, hword]
    decide +kernel
  · rw [keyedText, hkept, addMember, longMembers, List.singleton_append]
    simp only [Json.toText, Json.render, Json.renderMembers, Json.renderItems, hquote,
      Json.byteSize_append, Json.byteSize_cons, hword]
    have hcommand : 9 ≤ Json.byteSize (Json.quote "command") := by decide +kernel
    have hname : 12 ≤ Json.byteSize (Json.quote "request_id") := by decide +kernel
    have hchars : ∀ c : Char, 1 ≤ c.utf8Size := Char.utf8Size_pos
    have := hchars '"'
    omega

/-- A body that names every field at most once says the same after it has been parsed. -/
theorem reading_kept (hfits : ∀ m ∈ ms, execStruct.Fits m)
    (honce : (ms.map fun m => fieldFor execStruct.fields m.1).Nodup) :
    reading (kept ms) = reading ms := by
  have hnames : ((Json.keptMembers ms).map Prod.fst).Nodup := by
    rw [Json.keys_keptMembers]
    refine List.Nodup.of_map (fieldFor execStruct.fields) ?_
    rwa [List.map_map]
  rw [reading, kept, Json.rows_hash_of_nodup hnames, Go.foldl_set_keptMembers _ hfits, reading]

/-- A body with one field `env`, in which a variable is set twice. -/
def repeatedEnv : List (String × Json) :=
  plainMembers ++ [("env", .obj [("A", .str "1"), ("A", .str "2")])]

theorem reading_kept_repeatedEnv :
    reading (kept repeatedEnv) = reading repeatedEnv ∧
      (reading repeatedEnv).env "A" = some "2" := by
  have hmembers : execStruct.members {} repeatedEnv = .ok (reading repeatedEnv) := rfl
  refine ⟨reading_kept (Go.Struct.members_eq_ok.1 hmembers).1 ?_, rfl⟩
  decide +kernel

end Service

end Sandcube
