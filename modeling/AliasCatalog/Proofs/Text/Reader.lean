import Mathlib.Algebra.BigOperators.Group.List.Basic
import AliasCatalog.Text.Reader

/-!
# Laws of readers

What a composed reader does on a text follows from what its parts do on the texts they meet.  A reader
that is run step by step goes on where the last step stopped (`bind_eq`), an alternative is tried where
the first one failed (`orElse_of_none`), and a repetition takes one item after the other up to a place
where the item's reader fails (`many_eq`).  An item may need something of what follows it, such as that
no blank stands first; that is the `follows` of the laws below.
-/

namespace AliasCatalog.Text.Reader

variable {α β ι : Type} {reader first second : Reader α} {text middle rest : List Char} {a : α}

/-! ## Steps -/

/-- After a result the next reader goes on where the first stopped. -/
theorem bind_eq {next : α → Reader β} (h : reader text = some (a, rest)) :
    (reader >>= next) text = next a rest := by
  show (reader text).bind (fun given => next given.1 given.2) = _
  rw [h]
  rfl

theorem bind_of_none {next : α → Reader β} (h : reader text = none) :
    (reader >>= next) text = none := by
  show (reader text).bind (fun given => next given.1 given.2) = _
  rw [h]
  rfl

theorem map_eq {f : α → β} (h : reader text = some (a, rest)) :
    (f <$> reader) text = some (f a, rest) := by
  show (reader text).bind (fun given => some (f given.1, given.2)) = _
  rw [h]
  rfl

theorem map_of_none {f : α → β} (h : reader text = none) : (f <$> reader) text = none := by
  show (reader text).bind (fun given => some (f given.1, given.2)) = _
  rw [h]
  rfl

/-- Of two readers the result of the first can be kept. -/
theorem seqLeft_eq {b : β} {other : Reader β} (h : reader text = some (a, middle))
    (hother : other middle = some (b, rest)) : (reader <* other) text = some (a, rest) := by
  show (reader >>= fun given => other >>= fun _ => pure given) text = _
  rw [bind_eq h, bind_eq hother]
  rfl

/-- Of two readers the result of the second can be kept. -/
theorem seqRight_eq {other : Reader β} (h : reader text = some (a, rest)) :
    (reader *> other) text = other rest :=
  bind_eq h

theorem seqRight_of_none {other : Reader β} (h : reader text = none) :
    (reader *> other) text = none :=
  bind_of_none h

/-! ## Alternatives -/

theorem orElse_of_some (h : first text = some (a, rest)) :
    (first <|> second) text = some (a, rest) := by
  show (first text <|> second text) = _
  rw [h]
  rfl

theorem orElse_of_none (h : first text = none) : (first <|> second) text = second text := by
  show (first text <|> second text) = _
  rw [h]
  rfl

theorem optionally_of_some (h : reader text = some (a, rest)) :
    optionally reader text = some (some a, rest) :=
  orElse_of_some (map_eq h)

theorem optionally_of_none (h : reader text = none) : optionally reader text = some (none, text) :=
  orElse_of_none (map_of_none h)

/-! ## Characters -/

theorem satisfy_of_pos {p : Char → Bool} {c : Char} (h : p c = true) (rest : List Char) :
    satisfy p (c :: rest) = some (c, rest) :=
  if_pos h

theorem satisfy_of_neg {p : Char → Bool} {c : Char} (h : ¬ p c = true) (rest : List Char) :
    satisfy p (c :: rest) = none :=
  if_neg h

theorem char_cons (c : Char) (rest : List Char) : char c (c :: rest) = some ((), rest) :=
  bind_eq (satisfy_of_pos (beq_self_eq_true c) rest)

theorem char_of_ne {c d : Char} (h : d ≠ c) (rest : List Char) : char c (d :: rest) = none :=
  bind_of_none (satisfy_of_neg (by simpa using h) rest)

theorem exactly_append (word : String) (rest : List Char) :
    exactly word (word.toList ++ rest) = some ((), rest) := by
  unfold exactly
  induction word.toList with
  | nil => rfl
  | cons c more ih => exact (bind_eq (char_cons c (more ++ rest))).trans ih

/-- A word is missed where another character stands first. -/
theorem exactly_of_ne {word : String} {c d : Char} (hfirst : word.toList.head? = some c) (h : d ≠ c)
    (rest : List Char) : exactly word (d :: rest) = none := by
  obtain ⟨more, hword⟩ := List.head?_eq_some_iff.mp hfirst
  unfold exactly
  rw [hword]
  exact bind_of_none (char_of_ne h rest)

/-! ## Repetition -/

section Repetition

variable {write : ι → List Char} {read : ι → α} {follows : List Char → Prop} {items : List ι}

/-- What may follow an item does so, whether another item comes next or the rest. -/
theorem follows_flatMap (hstart : ∀ item ∈ items, ∀ rest, follows (write item ++ rest))
    (hrest : follows rest) : follows (items.flatMap write ++ rest) := by
  cases items with
  | nil => exact hrest
  | cons item items =>
      rw [List.flatMap_cons, List.append_assoc]
      exact hstart item List.mem_cons_self _

/-- Items are taken one after the other if the bound allows a round for each. -/
theorem repeatWithin_eq {done : List α} {bound : List Char}
    (hitem : ∀ item ∈ items, ∀ rest, follows rest →
      reader (write item ++ rest) = some (read item, rest))
    (hstart : ∀ item ∈ items, ∀ rest, follows (write item ++ rest)) (hrest : follows rest)
    (hstop : reader rest = none) (hbound : items.length ≤ bound.length) :
    repeatWithin reader done bound (items.flatMap write ++ rest) =
      (done.reverse ++ items.map read, rest) := by
  induction items generalizing done bound with
  | nil => cases bound <;> simp [repeatWithin, hstop]
  | cons item items ih =>
      obtain ⟨hhead, htail⟩ := List.forall_mem_cons.mp hitem
      have hlater := (List.forall_mem_cons.mp hstart).2
      cases bound with
      | nil => simp at hbound
      | cons c bound =>
          have hread := hhead _ (follows_flatMap hlater hrest)
          rw [List.flatMap_cons, List.append_assoc, repeatWithin, hread]
          simp only [ih htail hlater (Nat.le_of_succ_le_succ hbound), List.reverse_cons,
            List.append_assoc, List.map_cons, List.singleton_append]

/-- **A repetition takes what was written item by item**, up to a place where no item starts.  No item is
written as nothing, or it would be read where none starts. -/
theorem many_eq
    (hitem : ∀ item ∈ items, ∀ rest, follows rest →
      reader (write item ++ rest) = some (read item, rest))
    (hstart : ∀ item ∈ items, ∀ rest, follows (write item ++ rest))
    (hrest : follows rest) (hstop : reader rest = none) :
    many reader (items.flatMap write ++ rest) = some (items.map read, rest) := by
  have hwrite : ∀ item ∈ items, write item ≠ [] := by
    intro item hmem hnil
    have hread := hitem item hmem rest hrest
    rw [hnil, List.nil_append, hstop] at hread
    cases hread
  have hlength : items.length ≤ (items.flatMap write).length := by
    rw [List.length_flatMap, ← List.length_map fun item => (write item).length]
    apply List.length_le_sum_of_one_le
    intro n hn
    obtain ⟨item, hmem, rfl⟩ := List.mem_map.mp hn
    exact List.length_pos_iff.mpr (hwrite item hmem)
  rw [many, repeatWithin_eq hitem hstart hrest hstop (by rw [List.length_append]; omega)]
  rfl

end Repetition

/-- Items with a mark before each but the first. -/
def separated (mark : List Char) (write : α → List Char) : List α → List Char
  | [] => []
  | first :: others => write first ++ others.flatMap fun item => mark ++ write item

/-- Items are taken with the marks between them. -/
theorem sepBy1_eq {item : Reader α} {separator : Reader β} {mark : List Char}
    {write : α → List Char} {follows : List Char → Prop} {first : α} {others : List α}
    (hitem : ∀ x ∈ first :: others, ∀ rest, follows rest → item (write x ++ rest) = some (x, rest))
    (hmark : ∀ x ∈ others, ∀ rest, ∃ b,
      separator (mark ++ (write x ++ rest)) = some (b, write x ++ rest))
    (hfollows : ∀ rest, follows (mark ++ rest)) (hrest : follows rest)
    (hstop : separator rest = none) :
    sepBy1 item separator (separated mark write (first :: others) ++ rest) =
      some (first :: others, rest) := by
  obtain ⟨hfirst, hothers⟩ := List.forall_mem_cons.mp hitem
  have hstart : ∀ x ∈ others, ∀ rest, follows (mark ++ write x ++ rest) := by
    intro x _ rest
    rw [List.append_assoc]
    exact hfollows _
  have hmany : many (separator *> item) (others.flatMap (fun x => mark ++ write x) ++ rest) =
      some (others.map id, rest) := by
    refine many_eq (fun x hx rest hrest => ?_) hstart hrest (seqRight_of_none hstop)
    obtain ⟨b, hseparator⟩ := hmark x hx rest
    rw [List.append_assoc, seqRight_eq hseparator]
    exact hothers x hx rest hrest
  have hlater : follows (others.flatMap (fun x => mark ++ write x) ++ rest) :=
    follows_flatMap hstart hrest
  rw [separated, List.append_assoc, sepBy1, bind_eq (hfirst _ hlater), bind_eq hmany, List.map_id]
  rfl

end AliasCatalog.Text.Reader
