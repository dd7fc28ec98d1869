import Sandcube.Reliability.Request

/-!
# The lifecycle routes

The part of `Service#call` that decides which HTTP requests become lifecycle requests.  What
passes it has no line break in its method or path, and a body exactly when it is a create, so
that the text under the digest tells two requests apart.
-/

namespace Sandcube

/-- `sbx_[a-zA-Z0-9_-]{1,80}` -/
def SandboxName (id : String) : Prop :=
  ∃ name : List Char, id.toList = "sbx_".toList ++ name ∧ 1 ≤ name.length ∧ name.length ≤ 80 ∧
    ∀ c ∈ name, c.isAlphanum ∨ c = '_' ∨ c = '-'

namespace Request

/-- The requests that `Service#call` passes to `Reliability#request`. -/
inductive Routed (r : Request) : Prop
  | create (method : r.method = "POST") (path : r.path = "/v1/sandboxes") (body : r.body ≠ none)
  | delete (id : String) (name : SandboxName id) (method : r.method = "DELETE")
      (path : r.path = "/v1/sandboxes/" ++ id) (body : r.body = none)
  | move (id word : String) (name : SandboxName id) (known : word ∈ ["start", "stop", "restart"])
      (method : r.method = "POST") (path : r.path = "/v1/sandboxes/" ++ id ++ "/" ++ word)
      (body : r.body = none)

end Request

theorem SandboxName.not_mem {id : String} (h : SandboxName id) {c : Char}
    (hc : c = '\n' ∨ c = '/') : c ∉ id.toList := by
  obtain ⟨name, hid, -, -, hall⟩ := h
  rw [hid, List.mem_append]
  rintro (hmem | hmem)
  · rcases hc with rfl | rfl <;> exact absurd hmem (by decide)
  · have := hall c hmem
    rcases hc with rfl | rfl <;> exact absurd this (by decide)

/-- Texts are told apart at the first line break. -/
theorem append_cons_inj {α : Type} {a : α} {l l' m m' : List α} (hl : a ∉ l) (hl' : a ∉ l')
    (h : l ++ a :: m = l' ++ a :: m') : l = l' ∧ m = m' := by
  induction l generalizing l' with
  | nil =>
    cases l' with
    | nil => exact ⟨rfl, (List.cons.inj h).2⟩
    | cons b l' => exact absurd ((List.cons.inj h).1 ▸ List.mem_cons_self ..) hl'
  | cons b l ih =>
    cases l' with
    | nil => exact absurd ((List.cons.inj h).1 ▸ List.mem_cons_self ..) hl
    | cons b' l' =>
      obtain ⟨rfl, htail⟩ := List.cons.inj h
      obtain ⟨rfl, hm⟩ := ih (fun hm => hl (List.mem_cons_of_mem _ hm))
        (fun hm => hl' (List.mem_cons_of_mem _ hm)) htail
      exact ⟨rfl, hm⟩

namespace Request

variable {r r' : Request}

theorem Routed.not_mem_method (h : r.Routed) : '\n' ∉ r.method.toList := by
  cases h with
  | create method | delete _ _ method | move _ _ _ _ method =>
    rw [method]
    decide

theorem Routed.not_mem_path (h : r.Routed) : '\n' ∉ r.path.toList := by
  cases h with
  | create _ path =>
    rw [path]
    decide
  | delete id name _ path =>
    have := name.not_mem (.inl rfl)
    rw [path, String.toList_append, List.mem_append]
    rintro (hmem | hmem)
    · exact absurd hmem (by decide)
    · exact this hmem
  | move id word name known _ path =>
    have := name.not_mem (.inl rfl)
    simp only [path, String.toList_append, List.mem_append]
    rintro (((hmem | hmem) | hmem) | hmem)
    · exact absurd hmem (by decide)
    · exact this hmem
    · exact absurd hmem (by decide)
    · simp only [List.mem_cons, List.not_mem_nil, or_false] at known
      rcases known with rfl | rfl | rfl <;> exact absurd hmem (by decide)

/-- The path of an existing sandbox is longer than that of a create. -/
theorem path_ne_of_append {rest : String} (h : r.path = "/v1/sandboxes/" ++ rest) :
    r.path ≠ "/v1/sandboxes" := by
  intro heq
  have hlength := congrArg String.length (h.symm.trans heq)
  rw [String.length_append, show "/v1/sandboxes/".length = 14 from rfl,
    show "/v1/sandboxes".length = 13 from rfl] at hlength
  omega

theorem Routed.body_eq_none_iff (h : r.Routed) : r.body = none ↔ r.path ≠ "/v1/sandboxes" := by
  cases h with
  | create _ path body => simp [path, body]
  | delete id _ _ path body => simp [body, path_ne_of_append path]
  | move id word _ _ _ path body =>
    rw [String.append_assoc, String.append_assoc] at path
    simp [body, path_ne_of_append path]

/-- The last part of the path of an operation on an existing sandbox. -/
theorem getLast?_segments {id word : String} (hid : SandboxName id)
    (hword : '/' ∉ word.toList) (h : r.path = "/v1/sandboxes/" ++ id ++ "/" ++ word) :
    r.segments.getLast? = some word := by
  have hpath : r.path.toList = ['/'].intercalate
      [[], "v1".toList, "sandboxes".toList, id.toList, word.toList] := by
    simp [h, List.intercalate]
  have hsplit : r.path.toList.splitOn '/' =
      [[], "v1".toList, "sandboxes".toList, id.toList, word.toList] := by
    rw [hpath]
    refine List.splitOn_intercalate '/' ?_ (by simp)
    simp only [List.mem_cons, List.not_mem_nil, or_false]
    rintro l (rfl | rfl | rfl | rfl | rfl)
    · decide
    · decide
    · decide
    · exact hid.not_mem (.inr rfl)
    · exact hword
  simp [segments, hsplit]

/-- A routed request names a lifecycle operation. -/
theorem Routed.ofText?_ne_none (h : r.Routed) : Action.ofText? r.actionText ≠ none := by
  unfold actionText
  cases h with
  | create _ path => rw [if_pos path]; decide
  | delete id _ method path => rw [if_neg (path_ne_of_append path), if_pos method]; decide
  | move id word name known method path =>
    have hpath := path
    rw [String.append_assoc, String.append_assoc] at hpath
    have hslash : '/' ∉ word.toList := by
      simp only [List.mem_cons, List.not_mem_nil, or_false] at known
      rcases known with rfl | rfl | rfl <;> decide
    rw [if_neg (path_ne_of_append hpath), if_neg (by rw [method]; decide),
      getLast?_segments name hslash path]
    simp only [List.mem_cons, List.not_mem_nil, or_false] at known
    rcases known with rfl | rfl | rfl <;> decide

/-- **The text under the digest identifies the request.** -/
theorem Routed.eq_of_text_eq (h : r.Routed) (h' : r'.Routed) (ht : r.text = r'.text) :
    r.method = r'.method ∧ r.path = r'.path ∧ r.body = r'.body := by
  have htext : r.method.toList ++ '\n' :: (r.path.toList ++ '\n' :: (r.body.getD "").toList) =
      r'.method.toList ++ '\n' :: (r'.path.toList ++ '\n' :: (r'.body.getD "").toList) := by
    have := congrArg String.toList ht
    simpa [text] using this
  obtain ⟨hmethod, hrest⟩ := append_cons_inj h.not_mem_method h'.not_mem_method htext
  obtain ⟨hpath, hbody⟩ := append_cons_inj h.not_mem_path h'.not_mem_path hrest
  have hpath := String.toList_inj.mp hpath
  refine ⟨String.toList_inj.mp hmethod, hpath, ?_⟩
  have hnone : r.body = none ↔ r'.body = none := by
    rw [h.body_eq_none_iff, h'.body_eq_none_iff, hpath]
  have hbody := String.toList_inj.mp hbody
  cases hb : r.body with
  | none => exact (hnone.mp hb).symm
  | some b =>
    cases hb' : r'.body with
    | none => exact absurd (hnone.mpr hb') (by simp [hb])
    | some b' => simpa [hb, hb'] using hbody

end Request

end Sandcube
