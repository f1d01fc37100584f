/-!
# Runs that stop at the first error

A list is worked off from the left by steps that may fail.  The run goes through when every step
does, and otherwise ends with the error of the first step that fails.  Which step fails first depends
on the order of the list, so runs over permuted lists are compared by `Alike`: equal results, or errors
that agree as far as the caller cares.
-/

namespace AliasCatalog

variable {α β ε : Type}

/-- `x` is the first element of a list with a property. -/
def IsFirst (p : α → Prop) (list : List α) (x : α) : Prop :=
  ∃ before after, list = before ++ x :: after ∧ p x ∧ ∀ y ∈ before, ¬ p y

/-- A property that some element has is had by a first one. -/
theorem exists_isFirst {p : α → Prop} {list : List α} (h : ∃ x ∈ list, p x) :
    ∃ x, IsFirst p list x := by
  induction list with
  | nil => simp at h
  | cons first rest ih =>
      by_cases hfirst : p first
      · exact ⟨first, [], rest, rfl, hfirst, by simp⟩
      · obtain ⟨y, hmem, hy⟩ := h
        rcases List.mem_cons.mp hmem with rfl | hlater
        · exact absurd hy hfirst
        · obtain ⟨x, before, after, rfl, hx, hbefore⟩ := ih ⟨y, hlater, hy⟩
          refine ⟨x, first :: before, after, rfl, hx, fun z hz => ?_⟩
          rcases List.mem_cons.mp hz with rfl | hz
          · exact hfirst
          · exact hbefore z hz

/-- The first element with a property is in the list and has it. -/
theorem IsFirst.mem {p : α → Prop} {list : List α} {x : α} (h : IsFirst p list x) :
    x ∈ list ∧ p x := by
  obtain ⟨before, after, rfl, hx, _⟩ := h
  exact ⟨by simp, hx⟩

/-- `x` is the first element of a list whose image under `f` is that of an element before it. -/
def IsFirstRepeat (f : α → β) (list : List α) (x : α) : Prop :=
  ∃ before after, list = before ++ x :: after ∧ (before.map f).Nodup ∧ f x ∈ before.map f

/-- Images that are not all different repeat for a first time. -/
theorem exists_isFirstRepeat {f : α → β} {list : List α} (h : ¬ (list.map f).Nodup) :
    ∃ x, IsFirstRepeat f list x := by
  suffices hscan : ∀ rest before : List α, (before.map f).Nodup →
      ¬ ((before ++ rest).map f).Nodup → ∃ x, IsFirstRepeat f (before ++ rest) x from
    hscan list [] List.nodup_nil h
  intro rest
  induction rest with
  | nil => exact fun before hbefore hnot => absurd hbefore (by simpa using hnot)
  | cons x rest ih =>
      intro before hbefore hnot
      by_cases hx : f x ∈ before.map f
      · exact ⟨x, before, rest, rfl, hbefore, hx⟩
      · have hlonger : ((before ++ [x]).map f).Nodup := by
          rw [List.map_append, List.nodup_append]
          refine ⟨hbefore, by simp, ?_⟩
          intro a ha b hb heq
          rw [heq, List.mem_singleton.mp hb] at ha
          exact hx ha
        simpa using ih (before ++ [x]) hlonger (by simpa using hnot)

/-- A run that goes through has a result. -/
theorem exists_of_isOk {x : Except ε α} (h : x.isOk = true) : ∃ a, x = .ok a := by
  cases x with
  | ok a => exact ⟨a, rfl⟩
  | error e => cases h

/-- What is computed from a run that goes through is computed from its result. -/
theorem eq_of_map_eq_ok {x : Except ε α} {f : α → β} {a : α} {b : β} (h : x = .ok a)
    (hmap : x.map f = .ok b) : f a = b := by
  rw [h] at hmap
  exact Except.ok.inj hmap

section Steps

variable {f : α → Except ε β}

/-- When every step goes through, so does the run; what the steps' results have in common with their
inputs, the lists have. -/
theorem mapM_eq_ok {γ : Type} {list : List α} {g : β → γ} {h : α → γ}
    (hsteps : ∀ x ∈ list, ∃ y, f x = .ok y ∧ g y = h x) :
    ∃ results, list.mapM f = .ok results ∧ results.map g = list.map h := by
  induction list with
  | nil => exact ⟨[], rfl, rfl⟩
  | cons first rest ih =>
      obtain ⟨y, hy, hgy⟩ := hsteps first List.mem_cons_self
      obtain ⟨ys, hys, hgys⟩ := ih fun x hx => hsteps x (List.mem_cons_of_mem _ hx)
      refine ⟨y :: ys, ?_, by rw [List.map_cons, List.map_cons, hgy, hgys]⟩
      rw [List.mapM_cons, hy, hys]
      rfl

/-- The run ends with the first error. -/
theorem mapM_eq_error {before after : List α} {x : α} {e : ε}
    (hbefore : ∀ y ∈ before, ∃ z, f y = .ok z) (hx : f x = .error e) :
    (before ++ x :: after).mapM f = .error e := by
  induction before with
  | nil =>
      rw [List.nil_append, List.mapM_cons, hx]
      rfl
  | cons first rest ih =>
      obtain ⟨z, hz⟩ := hbefore first List.mem_cons_self
      rw [List.cons_append, List.mapM_cons, hz, ih fun y hy => hbefore y (List.mem_cons_of_mem _ hy)]
      rfl

end Steps

section Checks

variable {f : α → Except ε Unit}

/-- All steps go through when each does. -/
theorem forM_eq_ok {list : List α} (h : ∀ x ∈ list, f x = .ok ()) : list.forM f = .ok () := by
  induction list with
  | nil => rfl
  | cons first rest ih =>
      change (f first >>= fun _ => rest.forM f) = .ok ()
      rw [h first List.mem_cons_self]
      exact ih fun x hx => h x (List.mem_cons_of_mem _ hx)

/-- The first step that fails ends the run with its error. -/
theorem forM_eq_error {before after : List α} {x : α} {e : ε}
    (hbefore : ∀ y ∈ before, f y = .ok ()) (hx : f x = .error e) :
    (before ++ x :: after).forM f = .error e := by
  induction before with
  | nil =>
      change (f x >>= fun _ => after.forM f) = .error e
      rw [hx]
      rfl
  | cons first rest ih =>
      change (f first >>= fun _ => (rest ++ x :: after).forM f) = .error e
      rw [hbefore first List.mem_cons_self]
      exact ih fun y hy => hbefore y (List.mem_cons_of_mem _ hy)

/-- A run that does not go through ends with the error of a step. -/
theorem exists_forM_eq_error {list : List α} (h : ¬ ∀ x ∈ list, f x = .ok ()) :
    ∃ x e, IsFirst (fun x => f x ≠ .ok ()) list x ∧ f x = .error e ∧ list.forM f = .error e := by
  obtain ⟨x, hfirst⟩ := @exists_isFirst _ (fun x => f x ≠ .ok ()) list (by simpa using h)
  obtain ⟨before, after, rfl, hx, hbefore⟩ := id hfirst
  cases hfx : f x with
  | ok => exact absurd hfx hx
  | error e =>
      exact ⟨x, e, hfirst, hfx,
        forM_eq_error (fun y hy => Classical.not_not.mp (hbefore y hy)) hfx⟩

end Checks

/-! ## Runs that end alike -/

/-- The runs end with one result, or with errors in a relation. -/
def Alike (r : ε → ε → Prop) (x y : Except ε α) : Prop :=
  (∃ a, x = .ok a ∧ y = .ok a) ∨ ∃ e e', x = .error e ∧ y = .error e' ∧ r e e'

namespace Alike

variable {r : ε → ε → Prop} {x y : Except ε α}

theorem refl (hrefl : ∀ e, r e e) (x : Except ε α) : Alike r x x := by
  cases x with
  | ok a => exact .inl ⟨a, rfl, rfl⟩
  | error e => exact .inr ⟨e, e, rfl, rfl, hrefl e⟩

/-- Like runs that go on alike are alike. -/
theorem bind {f g : α → Except ε β} (h : Alike r x y) (hnext : ∀ a, Alike r (f a) (g a)) :
    Alike r (x.bind f) (y.bind g) := by
  rcases h with ⟨a, rfl, rfl⟩ | ⟨e, e', rfl, rfl, hr⟩
  · exact hnext a
  · exact .inr ⟨e, e', rfl, rfl, hr⟩

/-- Like runs stay alike when their errors are wrapped. -/
theorem mapError {δ : Type} {s : δ → δ → Prop} {wrap : ε → δ} (h : Alike r x y)
    (hwrap : ∀ e e', r e e' → s (wrap e) (wrap e')) :
    Alike s (x.mapError wrap) (y.mapError wrap) := by
  rcases h with ⟨a, rfl, rfl⟩ | ⟨e, e', rfl, rfl, hr⟩
  · exact .inl ⟨a, rfl, rfl⟩
  · exact .inr ⟨_, _, rfl, rfl, hwrap e e' hr⟩

/-- **Checks end alike in any order** when any two of their errors are in the relation. -/
theorem forM {f : α → Except ε Unit} {list other : List α} (hperm : list.Perm other)
    (herrors : ∀ a b e e', f a = .error e → f b = .error e' → r e e') :
    Alike r (list.forM f) (other.forM f) := by
  by_cases hall : ∀ x ∈ list, f x = .ok ()
  · have hother : ∀ x ∈ other, f x = .ok () := fun x hx => hall x (hperm.mem_iff.mpr hx)
    exact .inl ⟨(), forM_eq_ok hall, forM_eq_ok hother⟩
  · have hother : ¬ ∀ x ∈ other, f x = .ok () := fun h => hall fun x hx => h x (hperm.mem_iff.mp hx)
    obtain ⟨a, e, _, ha, hrun⟩ := exists_forM_eq_error hall
    obtain ⟨b, e', _, hb, hrun'⟩ := exists_forM_eq_error hother
    exact .inr ⟨e, e', hrun, hrun', herrors a b e e' ha hb⟩

end Alike

end AliasCatalog
