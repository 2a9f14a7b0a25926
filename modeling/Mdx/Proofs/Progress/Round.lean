/-
Readers that work in rounds. A round is given what reads on behind it, and it
advances if it hangs only on what is read at later states (`Advances`). Then the
equation of the round has one solution, and as many rounds as there are
characters left compute it (`Ends`): a reader that called itself without end, at
one state or in a circle, would leave its equation open there.
-/
import Mdx.Error

namespace Mdx

/-- Two readers give the same, and a value that they give has `P`. -/
inductive Alike {α : Type} (P : α → Prop) : (x y : Except ParseError α) → Prop
  | ok {a : α} : P a → Alike P (.ok a) (.ok a)
  | error {e : ParseError} : Alike P (.error e) (.error e)

namespace Alike

variable {α β : Type} {P : α → Prop} {Q : β → Prop} {x y : Except ParseError α}
  {f g : α → Except ParseError β}

theorem eq (h : Alike P x y) : x = y := by
  cases h with
  | ok => rfl
  | error => rfl

theorem of_ok {a : α} (h : Alike P x y) (hx : x = .ok a) : P a := by
  cases h with
  | ok ha =>
    cases hx
    exact ha
  | error => cases hx

theorem mono {P' : α → Prop} (h : Alike P x y) (hP : ∀ a, P a → P' a) : Alike P' x y := by
  cases h with
  | ok ha => exact .ok (hP _ ha)
  | error => exact .error

theorem bind (h : Alike P x y) (hf : ∀ a, P a → Alike Q (f a) (g a)) :
    Alike Q (x >>= f) (y >>= g) := by
  cases h with
  | ok ha => exact hf _ ha
  | error => exact .error

/-- Two readers that start with the same one. -/
theorem bind_same (hf : ∀ a, x = .ok a → Alike Q (f a) (g a)) : Alike Q (x >>= f) (x >>= g) := by
  cases x with
  | error e => exact .error
  | ok a => exact hf a rfl

end Alike

section Rounds

variable {σ α : Type} {valid : σ → Prop} {later : σ → σ → Prop} {gives : σ → α → Prop} {left : σ → Nat}
  {round : (σ → Except ParseError α) → σ → Except ParseError α} {run : Nat → σ → Except ParseError α}

/-- At a valid state the round reads on only at valid states that are later: it gives the same for
two readers that give the same there. Where it reads on may hang on what was read before, so of that
it may take `gives` for granted. -/
def Advances (valid : σ → Prop) (later : σ → σ → Prop) (gives : σ → α → Prop)
    (round : (σ → Except ParseError α) → σ → Except ParseError α) : Prop :=
  ∀ (read read' : σ → Except ParseError α) (s : σ), valid s →
    (∀ t, valid t → later s t → Alike (gives t) (read t) (read' t)) →
    Alike (gives s) (round read s) (round read' s)

/-- At valid states the rounds come to an end: more of them than `left` make no difference, they give
what the round itself asks for, and no other reader does. -/
structure Ends (valid : σ → Prop) (left : σ → Nat)
    (round : (σ → Except ParseError α) → σ → Except ParseError α) (run : Nat → σ → Except ParseError α) :
    Prop where
  enough : ∀ s, valid s → ∀ m n, left s < m → left s < n → run m s = run n s
  solves : ∀ s, valid s → ∀ n, left s < n → run n s = round (run n) s
  unique : ∀ read : σ → Except ParseError α, (∀ s, valid s → read s = round read s) →
    ∀ s, valid s → ∀ n, left s < n → read s = run n s

/-- Two readers that both work in rounds give the same, each with enough of them. -/
theorem Advances.alike (h : Advances valid later gives round)
    (hleft : ∀ {s t}, later s t → left t < left s) {f g : Nat → σ → Except ParseError α}
    (hf : ∀ n s, valid s → f (n + 1) s = round (f n) s)
    (hg : ∀ n s, valid s → g (n + 1) s = round (g n) s) {s : σ} (hs : valid s) {m n : Nat}
    (hm : left s < m) (hn : left s < n) : Alike (gives s) (f m s) (g n s) := by
  induction hk : left s using Nat.strongRecOn generalizing s m n with
  | _ k ih =>
    obtain ⟨m, rfl⟩ := Nat.exists_eq_add_one.mpr (Nat.zero_lt_of_lt hm)
    obtain ⟨n, rfl⟩ := Nat.exists_eq_add_one.mpr (Nat.zero_lt_of_lt hn)
    rw [hf m s hs, hg n s hs]
    refine h _ _ s hs fun t ht hlater => ?_
    have hlt := hleft hlater
    exact ih (left t) (by omega) ht (by omega) (by omega) rfl

theorem Advances.gives_of_run (h : Advances valid later gives round)
    (hleft : ∀ {s t}, later s t → left t < left s) (hrun : ∀ n s, run (n + 1) s = round (run n) s)
    {s : σ} (hs : valid s) {n : Nat} (hn : left s < n) {a : α} (ha : run n s = .ok a) : gives s a :=
  (h.alike hleft (fun n s _ => hrun n s) (fun n s _ => hrun n s) hs hn hn).of_ok ha

theorem Advances.ends (h : Advances valid later gives round)
    (hleft : ∀ {s t}, later s t → left t < left s)
    (hrun : ∀ n s, run (n + 1) s = round (run n) s) : Ends valid left round run := by
  have hrounds : ∀ n s, valid s → run (n + 1) s = round (run n) s := fun n s _ => hrun n s
  refine ⟨fun s hs m n hm hn => ?_, fun s hs n hn => ?_, fun read hread s hs n hn => ?_⟩
  · exact (h.alike hleft hrounds hrounds hs hm hn).eq
  · obtain ⟨n, rfl⟩ := Nat.exists_eq_add_one.mpr (Nat.zero_lt_of_lt hn)
    rw [hrun]
    refine (h _ _ s hs fun t ht hlater => ?_).eq
    have hlt := hleft hlater
    exact h.alike hleft hrounds hrounds ht (by omega) (by omega)
  · -- A reader that solves the equation works in rounds too, each of them the reader itself.
    exact (h.alike (f := fun _ => read) hleft (fun _ => hread) hrounds hs hn hn).eq

end Rounds

end Mdx
