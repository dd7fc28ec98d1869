import Sandcube.Service.ProcessBody

/-!
# The environment of a process

`mergeEnv` of the adapter.  An environment is a list of entries `name=value`; a program reads it by
cutting every entry at its first `=`.  `mergeEnv` reads the environment of the image that way,
stores the `env` member of the request over it, and writes the result in the order of the names.

The names of the request are taken as they are.  A name without `=` is read back as it was given
(`cut_entry`); a name with one is cut in the middle, and no entry that is read has such a name
(`not_mem_of_mem_readEnv`).
-/

namespace Sandcube.Go

variable {name value : String} {overrides : Table String String} {names : List String}
  {map : StringMap} {e : Exec}

/-! ### Entries -/

/-- `strings.Cut(_, "=")` on the characters. -/
def cutChars : List Char → Option (List Char × List Char)
  | [] => none
  | c :: cs => if c = '=' then some ([], cs) else (cutChars cs).map fun (k, v) => (c :: k, v)

/-- `strings.Cut(entry, "=")` -/
def cut (entry : String) : Option (String × String) :=
  (cutChars entry.toList).map fun (k, v) => (String.ofList k, String.ofList v)

theorem cutChars_eq_some_iff {cs k v : List Char} :
    cutChars cs = some (k, v) ↔ '=' ∉ k ∧ cs = k ++ '=' :: v := by
  induction cs generalizing k with
  | nil => simp [cutChars]
  | cons c cs ih =>
    rw [cutChars]
    by_cases hc : c = '='
    · rw [if_pos hc, Option.some_inj, Prod.mk.injEq]
      constructor
      · rintro ⟨rfl, rfl⟩
        simp [hc]
      · rintro ⟨hk, heq⟩
        cases k with
        | nil => exact ⟨rfl, (List.cons_eq_cons.mp heq).2⟩
        | cons d k =>
          have hd : c = d := (List.cons_eq_cons.mp heq).1
          exact absurd (by rw [← hd, hc]; exact List.mem_cons_self) hk
    · rw [if_neg hc, Option.map_eq_some_iff]
      constructor
      · rintro ⟨⟨k', v'⟩, hcut, heq⟩
        obtain ⟨rfl, rfl⟩ := Prod.mk.inj heq
        obtain ⟨hk, rfl⟩ := ih.mp hcut
        exact ⟨by simp [hk, Ne.symm hc], rfl⟩
      · rintro ⟨hk, heq⟩
        cases k with
        | nil => exact absurd (List.cons_eq_cons.mp heq).1 hc
        | cons d k =>
          obtain ⟨rfl, hcs⟩ := List.cons_eq_cons.mp heq
          rw [List.mem_cons, not_or] at hk
          exact ⟨(k, v), ih.mpr ⟨hk.2, hcs⟩, rfl⟩

/-- The name of an entry that is read has no `=`. -/
theorem not_mem_of_cut {entry : String} (h : cut entry = some (name, value)) :
    '=' ∉ name.toList := by
  unfold cut at h
  obtain ⟨⟨k, v⟩, hcut, heq⟩ := Option.map_eq_some_iff.mp h
  obtain ⟨rfl, -⟩ := Prod.mk.inj heq
  rw [String.toList_ofList]
  exact (cutChars_eq_some_iff.mp hcut).1

/-- A name without `=` is read back. -/
theorem cut_entry (h : '=' ∉ name.toList) (value : String) :
    cut (name ++ "=" ++ value) = some (name, value) := by
  have hchars : (name ++ "=" ++ value).toList = name.toList ++ '=' :: value.toList := by
    simp
  have hcut := cutChars_eq_some_iff.mpr ⟨h, hchars⟩
  unfold cut
  rw [hcut, Option.map_some]
  dsimp only
  rw [String.ofList_toList, String.ofList_toList]

/-- What a program finds in an environment: names and values, in the order of the entries. -/
def readEnv (env : List String) : List (String × String) := env.filterMap cut

theorem not_mem_of_mem_readEnv {env : List String} (h : (name, value) ∈ readEnv env) :
    '=' ∉ name.toList := by
  obtain ⟨entry, -, hcut⟩ := List.mem_filterMap.mp h
  exact not_mem_of_cut hcut

/-! ### `mergeEnv` -/

/-- `values` after the loop over the entries of the image. -/
def baseValues (base : List String) : Table String String :=
  base.foldl (fun values entry =>
    match cut entry with
    | some (key, value) => values.put key value
    | none => values) .empty

/-- `values` after the loop over the map of the request, which comes in any order. -/
def envValues (base : List String) (overrides : Table String String) : Table String String :=
  overrides.rows.foldl (fun values row => values.put row.1 row.2) (baseValues base)

/-- `mergeEnv`.  Go compares strings byte by byte, which in UTF-8 is the order of the characters. -/
def mergeEnv (base : List String) (overrides : Table String String) : List String :=
  ((envValues base overrides).keys.insertionSort (· ≤ ·)).map fun key =>
    key ++ "=" ++ ((envValues base overrides).find? key).getD ""

theorem baseValues_eq (base : List String) : baseValues base = Table.empty.putAll (readEnv base) := by
  unfold baseValues
  generalize (Table.empty : Table String String) = values
  induction base generalizing values with
  | nil => rfl
  | cons entry base ih =>
    rw [List.foldl_cons, ih]
    unfold readEnv
    rw [List.filterMap_cons]
    cases cut entry with
    | none | some row => rfl

/-- The value of the last entry with this name. -/
def lastValue (env : List String) (name : String) : Option String :=
  (((readEnv env).filter fun row => row.1 = name).getLast?).map Prod.snd

theorem find?_envValues (base : List String) (overrides : Table String String) (name : String) :
    (envValues base overrides).find? name = (overrides.find? name).or (lastValue base name) := by
  have hbase : (baseValues base).find? name = lastValue base name := by
    rw [baseValues_eq, Table.find?_putAll, Table.find?_empty, Option.or_none, lastValue]
  have hrows : (envValues base overrides) = (baseValues base).putAll overrides.rows := rfl
  rw [hrows, Table.find?_putAll_rows, hbase]

/-- Every name has no `=` when those of the request have none. -/
theorem not_mem_of_mem_keys {base : List String} (h : ∀ name ∈ overrides.keys, '=' ∉ name.toList)
    (hname : name ∈ (envValues base overrides).keys) : '=' ∉ name.toList := by
  obtain ⟨value, hvalue⟩ := (Table.mem_keys_iff _ _).mp hname
  rw [find?_envValues, Option.or_eq_some_iff] at hvalue
  rcases hvalue with hover | ⟨-, hlast⟩
  · exact h name ((Table.mem_keys_iff _ _).mpr ⟨value, hover⟩)
  · obtain ⟨row, hrow, -⟩ := Option.map_eq_some_iff.mp hlast
    have hmem := List.mem_filter.mp (List.mem_of_getLast? hrow)
    have hrowname : row.1 = name := by simpa using hmem.2
    have hread : (row.1, row.2) ∈ readEnv base := hmem.1
    rw [← hrowname]
    exact not_mem_of_mem_readEnv hread

/-! ### The map that is read back -/

/-- An environment stands for the map of `base` with that of the request over it: every name is
there once, the names are in order, and they have the values of the request or else the last ones
of `base`. -/
structure Overridden (base : List String) (overrides : Table String String) (env : List String) :
    Prop where
  sorted : ((readEnv env).map Prod.fst).Pairwise (· < ·)
  value : ∀ name, (readEnv env).lookup name = (overrides.find? name).or (lastValue base name)

/-- The entries of names without `=` are read back one by one. -/
theorem readEnv_entries (value : String → String) (h : ∀ name ∈ names, '=' ∉ name.toList) :
    readEnv (names.map fun name => name ++ "=" ++ value name) =
      names.map fun name => (name, value name) := by
  induction names with
  | nil => rfl
  | cons name names ih =>
    rw [List.map_cons, List.map_cons, readEnv,
      List.filterMap_cons_some (cut_entry (h name List.mem_cons_self) _)]
    congr 1
    exact ih fun name' hname' => h name' (List.mem_cons_of_mem _ hname')

/-- `sort.Strings` leaves distinct names in strict order. -/
theorem pairwise_lt_insertionSort (h : names.Nodup) :
    (names.insertionSort (· ≤ ·)).Pairwise (· < ·) := by
  have hle := List.pairwise_insertionSort (· ≤ ·) names
  have hne : (names.insertionSort (· ≤ ·)).Nodup := (List.perm_insertionSort _ names).nodup_iff.mpr h
  exact (hle.and hne).imp fun ⟨hle, hne⟩ => lt_of_le_of_ne hle hne

theorem lookup_map_pair (names : List String) (value : String → String) (name : String) :
    (names.map fun name => (name, value name)).lookup name =
      if name ∈ names then some (value name) else none := by
  induction names with
  | nil => rfl
  | cons name' names ih =>
    rw [List.map_cons, Table.lookup_cons_ite, ih]
    by_cases hname : name = name'
    · rw [if_pos hname, hname, if_pos List.mem_cons_self]
    · simp [hname]

/-- Names without `=` make `mergeEnv` an override. -/
theorem overridden_mergeEnv (base : List String) (h : ∀ name ∈ overrides.keys, '=' ∉ name.toList) :
    Overridden base overrides (mergeEnv base overrides) := by
  set names := (envValues base overrides).keys.insertionSort (· ≤ ·) with hnames
  have hmem : ∀ name, name ∈ names ↔ name ∈ (envValues base overrides).keys := fun name =>
    (List.perm_insertionSort _ _).mem_iff
  have hread : readEnv (mergeEnv base overrides) =
      names.map fun name => (name, ((envValues base overrides).find? name).getD "") :=
    readEnv_entries _ fun name hname => not_mem_of_mem_keys h ((hmem name).mp hname)
  constructor
  · rw [hread, List.map_map]
    have hfst : (Prod.fst ∘ fun name => (name, ((envValues base overrides).find? name).getD "")) =
        id := rfl
    rw [hfst, List.map_id]
    exact pairwise_lt_insertionSort (Table.nodup_keys _)
  · intro name
    rw [hread, lookup_map_pair, ← find?_envValues]
    by_cases hname : name ∈ (envValues base overrides).keys
    · obtain ⟨value, hvalue⟩ := (Table.mem_keys_iff _ _).mp hname
      rw [if_pos ((hmem name).mpr hname), hvalue, Option.getD_some]
    · rw [if_neg fun hin => hname ((hmem name).mp hin), (Table.find?_eq_none_iff _ _).mpr hname]

/-! ### The maps of the requests -/

/-- A decoded map is finite. -/
def StringMap.Finite (map : StringMap) : Prop := ∃ t : Table String String, ∀ k, t.find? k = map k

theorem StringMap.Finite.update (h : map.Finite) (name value : String) :
    StringMap.Finite (Function.update map name (some value)) := by
  obtain ⟨t, ht⟩ := h
  refine ⟨t.put name value, fun k => ?_⟩
  rw [Table.find?_put, Function.update_apply, ht]

theorem StringMap.Finite.read (h : map.Finite) (value : Json) :
    StringMap.Finite (readStringMap map value) := by
  cases value with
  | obj ms =>
    show StringMap.Finite (addEntries map ms)
    induction ms generalizing map with
    | nil => exact h
    | cons m ms ih => exact ih (h.update _ _)
  | null => exact ⟨.empty, fun _ => rfl⟩
  | bool _ | int _ | float _ | str _ | arr _ => exact h

theorem finite_env_set (h : e.env.Finite) (m : String × Json) :
    (execStruct.set e m).env.Finite := by
  unfold Struct.set
  cases fieldFor execStruct.fields m.1 with
  | none => exact h
  | some field =>
    dsimp only [execStruct]
    split_ifs
    · exact h
    · exact h
    · exact h
    · exact h.read m.2
    · exact h

theorem finite_env_foldl (h : e.env.Finite) (ms : List (String × Json)) :
    (ms.foldl execStruct.set e).env.Finite := by
  induction ms generalizing e with
  | nil => exact h
  | cons m ms ih => exact ih (finite_env_set h m)

/-- The `env` of a request that the adapter takes is a finite map. -/
theorem finite_env_of_accept {endpoint : Endpoint} {text : Text} {e : Exec}
    (h : endpoint.accept text = .ok e) : e.env.Finite := by
  have hempty : StringMap.Finite (({} : Exec).env) := ⟨.empty, fun _ => rfl⟩
  have hsettle : ∀ e : Exec, (endpoint.settle e).env = e.env := by
    intro e
    cases endpoint with
    | exec => rw [Endpoint.settle]; split_ifs <;> rfl
    | processes => rfl
  have hdecoded : ∀ e, execStruct.decode {} text = .ok e → e.env.Finite := by
    intro e hdecode
    unfold Struct.decode at hdecode
    split_ifs at hdecode
    split at hdecode
    · obtain ⟨-, rfl⟩ := Struct.members_eq_ok.mp hdecode
      exact finite_env_foldl hempty _
    · cases hdecode
      exact hempty
    · cases hdecode
  unfold Endpoint.accept at h
  split at h
  · cases h
  · next e' hdecode =>
    split_ifs at h
    cases h
    rw [hsettle]
    exact hdecoded e' hdecode

/-- **`mergeEnv` is an override exactly for names without `=`.**  For every request that one of the
routes takes, its map, whatever the order of its entries, and every environment of the image. -/
theorem mergeEnv_overrides_iff {endpoint : Endpoint} {text : Text} {e : Exec}
    (h : endpoint.accept text = .ok e) :
    (∃ overrides : Table String String, ∀ name, overrides.find? name = e.env name) ∧
      ∀ overrides : Table String String, (∀ name, overrides.find? name = e.env name) →
        ∀ base, Overridden base overrides (mergeEnv base overrides) ↔
          ∀ name, (e.env name).isSome → '=' ∉ name.toList := by
  refine ⟨finite_env_of_accept h, fun overrides henv base => ⟨fun hover name hname => ?_, ?_⟩⟩
  · -- the name is in the map, so it is read back, and no name that is read back has a `=`
    obtain ⟨value, hvalue⟩ := Option.isSome_iff_exists.mp hname
    have hlookup : (readEnv (mergeEnv base overrides)).lookup name = some value := by
      rw [hover.value, henv, hvalue, Option.some_or]
    obtain ⟨before, after, hread, -⟩ := List.lookup_eq_some_iff.mp hlookup
    have hmem : (name, value) ∈ readEnv (mergeEnv base overrides) := by
      rw [hread]
      exact List.mem_append_right _ List.mem_cons_self
    exact not_mem_of_mem_readEnv hmem
  · intro hnames
    apply overridden_mergeEnv
    intro name hname
    obtain ⟨value, hvalue⟩ := (Table.mem_keys_iff _ _).mp hname
    rw [henv] at hvalue
    exact hnames name (Option.isSome_of_eq_some hvalue)

/-- A request with this `env`. -/
def envBody (env : List (String × String)) : Text :=
  (Json.obj [("command", .arr [.str "env"]),
    ("env", .obj (env.map fun (name, value) => (name, .str value)))]).toText

/-- What the adapter decodes from it. -/
def envExec (env : List (String × String)) : Exec where
  command := ⟨["env"], 1⟩
  env := addEntries (fun _ => none) (env.map fun (name, value) => (name, .str value))

def customEnv : Table String String := ⟨[("PATH", "/custom/bin"), ("TOKEN", "a=b")], by decide⟩

def imageEnv : List String := ["PATH=/image/bin", "LANG=C", "PATH=/last/bin"]

theorem mergeEnv_overrides_custom :
    Endpoint.processes.accept (envBody customEnv.rows) = .ok (envExec customEnv.rows) ∧
      Overridden imageEnv customEnv (mergeEnv imageEnv customEnv) ∧
      mergeEnv imageEnv customEnv = ["LANG=C", "PATH=/custom/bin", "TOKEN=a=b"] := by
  have haccept : Endpoint.processes.accept (envBody customEnv.rows) =
      .ok (envExec customEnv.rows) := rfl
  have henv : ∀ name, customEnv.find? name = (envExec customEnv.rows).env name := by
    intro name
    show [("PATH", "/custom/bin"), ("TOKEN", "a=b")].lookup name =
      addEntries (fun _ => none) [("PATH", .str "/custom/bin"), ("TOKEN", .str "a=b")] name
    rw [Table.lookup_cons_ite, Table.lookup_cons_ite]
    simp only [addEntries, List.foldl_cons, List.foldl_nil, Function.update_apply, readString]
    by_cases hpath : name = "PATH"
    · simp [hpath]
    · simp [hpath]
  refine ⟨haccept, ((mergeEnv_overrides_iff haccept).2 customEnv henv imageEnv).mpr ?_,
    by decide +kernel⟩
  intro name hname
  rw [← henv] at hname
  have hkeys : ∀ name ∈ customEnv.keys, '=' ∉ name.toList := by decide +kernel
  obtain ⟨value, hvalue⟩ := Option.isSome_iff_exists.mp hname
  exact hkeys name ((Table.mem_keys_iff _ _).mpr ⟨value, hvalue⟩)

/-- The name `A=B`. -/
def splitEnv : Table String String := ⟨[("A=B", "x")], by decide⟩

/-- Both routes take the request.  The process finds the name `A` twice, and no `A=B`. -/
theorem mergeEnv_split_name :
    Endpoint.exec.accept (envBody splitEnv.rows) =
        .ok { envExec splitEnv.rows with timeout := 30 } ∧
      Endpoint.processes.accept (envBody splitEnv.rows) = .ok (envExec splitEnv.rows) ∧
      mergeEnv ["A=1"] splitEnv = ["A=1", "A=B=x"] ∧
      readEnv (mergeEnv ["A=1"] splitEnv) = [("A", "1"), ("A", "B=x")] ∧
      splitEnv.find? "A=B" = some "x" ∧
      ¬ Overridden ["A=1"] splitEnv (mergeEnv ["A=1"] splitEnv) := by
  have hread : readEnv (mergeEnv ["A=1"] splitEnv) = [("A", "1"), ("A", "B=x")] := by
    decide +kernel
  refine ⟨rfl, rfl, by decide +kernel, hread, by decide +kernel, fun h => ?_⟩
  have hsorted := h.sorted
  rw [hread] at hsorted
  exact absurd hsorted (by decide +kernel)

end Sandcube.Go
