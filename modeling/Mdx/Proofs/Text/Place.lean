/-
Places of a text. `Cursor.Path c text d` says that `text` stands between the
places `c` and `d`; all that is proved about where things are in a document is
proved along such paths, and turned into offsets only at the end.

Two places reached from one cursor are ordered by their offsets (`Path.split`),
since no character is without bytes. A place of a text stands on a character
boundary, and the slice between two of them is the path's text.
-/
import Mdx.Text.Cursor

namespace Mdx

@[simp] theorem byteLength_nil : byteLength [] = 0 := rfl

@[simp] theorem byteLength_cons (c : Char) (cs : List Char) :
    byteLength (c :: cs) = c.utf8Size + byteLength cs := rfl

theorem length_le_byteLength (cs : List Char) : cs.length ≤ byteLength cs := by
  induction cs with
  | nil => simp
  | cons c cs ih =>
    have := c.utf8Size_pos
    simp only [List.length_cons, byteLength_cons]
    omega

theorem byteLength_eq_zero {cs : List Char} (h : byteLength cs = 0) : cs = [] := by
  have := length_le_byteLength cs
  exact List.length_eq_zero_iff.mp (by omega)

theorem byteLength_pos {cs : List Char} (h : cs ≠ []) : 0 < byteLength cs := by
  have := length_le_byteLength cs
  have := List.length_pos_iff.mpr h
  omega

/-! ## Cutting at a boundary -/

/-- The byte count of a text that is not empty, in the form that the functions on bytes look at. -/
theorem byteLength_cons_eq_succ (c : Char) (cs : List Char) : ∃ n, byteLength (c :: cs) = n + 1 ∧
    c.utf8Size ≤ n + 1 ∧ n + 1 - c.utf8Size = byteLength cs := by
  have := c.utf8Size_pos
  refine ⟨byteLength (c :: cs) - 1, ?_, ?_, ?_⟩ <;> rw [byteLength_cons] <;> omega

theorem takeBytes_append (a b : List Char) : takeBytes (a ++ b) (byteLength a) = a := by
  induction a with
  | nil => simp
  | cons c a ih =>
    obtain ⟨n, hn, -, hrest⟩ := byteLength_cons_eq_succ c a
    rw [List.cons_append, hn, takeBytes, hrest, ih]
    omega

theorem dropBytes_append (a b : List Char) : dropBytes (a ++ b) (byteLength a) = b := by
  have h := takeBytes_append_dropBytes (a ++ b) (byteLength a)
  rw [takeBytes_append] at h
  exact List.append_cancel_left h

theorem isBoundary_iff {cs : List Char} {n : Nat} :
    isBoundary cs n = true ↔ ∃ a b, cs = a ++ b ∧ byteLength a = n := by
  constructor
  · intro h
    induction cs generalizing n with
    | nil => cases n with
      | zero => exact ⟨[], [], rfl, rfl⟩
      | succ n => simp [isBoundary] at h
    | cons c cs ih => cases n with
      | zero => exact ⟨[], c :: cs, rfl, rfl⟩
      | succ n =>
        simp only [isBoundary, Bool.and_eq_true, decide_eq_true_eq] at h
        obtain ⟨a, b, hcs, ha⟩ := ih h.2
        exact ⟨c :: a, b, by simp [hcs], by simp; omega⟩
  · rintro ⟨a, b, rfl, rfl⟩
    induction a with
    | nil => cases b <;> rfl
    | cons c a ih =>
      obtain ⟨n, hn, hle, hrest⟩ := byteLength_cons_eq_succ c a
      rw [List.cons_append, hn]
      simp only [isBoundary, Bool.and_eq_true, decide_eq_true_eq]
      exact ⟨hle, by rw [hrest]; exact ih⟩

theorem isBoundary_le {cs : List Char} {n : Nat} (h : isBoundary cs n = true) : n ≤ byteLength cs := by
  obtain ⟨a, b, rfl, rfl⟩ := isBoundary_iff.mp h
  rw [byteLength_append]
  omega

theorem charAt?_append (a : List Char) (c : Char) (b : List Char) :
    charAt? (a ++ c :: b) (byteLength a) = some c := by
  induction a with
  | nil => rfl
  | cons d a ih =>
    obtain ⟨n, hn, hle, hrest⟩ := byteLength_cons_eq_succ d a
    rw [List.cons_append, hn, charAt?, if_pos hle, hrest, ih]
    omega

theorem charAt?_eq_some {cs : List Char} {n : Nat} {c : Char} (h : charAt? cs n = some c) :
    ∃ a b, cs = a ++ c :: b ∧ byteLength a = n := by
  induction cs generalizing n with
  | nil => simp [charAt?] at h
  | cons d cs ih => cases n with
    | zero => simp only [charAt?, Option.some.injEq] at h; exact ⟨[], cs, by simp [h], rfl⟩
    | succ n =>
      simp only [charAt?] at h
      split at h
      · obtain ⟨a, b, hcs, ha⟩ := ih h
        exact ⟨d :: a, b, by simp [hcs], by simp; omega⟩
      · simp at h

theorem mem_of_charAt? {cs : List Char} {n : Nat} {c : Char} (h : charAt? cs n = some c) : c ∈ cs := by
  obtain ⟨a, b, rfl, -⟩ := charAt?_eq_some h
  exact List.mem_append_right a List.mem_cons_self

theorem lt_of_charAt? {cs : List Char} {n : Nat} {c : Char} (h : charAt? cs n = some c) : n < byteLength cs := by
  obtain ⟨a, b, rfl, rfl⟩ := charAt?_eq_some h
  have := c.utf8Size_pos
  rw [byteLength_append, byteLength_cons]
  omega

/-- The character at a place is one of the first text or of the second, at the place there. -/
theorem charAt?_append_eq (a b : List Char) (n : Nat) :
    charAt? (a ++ b) n = if n < byteLength a then charAt? a n else charAt? b (n - byteLength a) := by
  induction a generalizing n with
  | nil => simp
  | cons c a ih =>
    have hpos := c.utf8Size_pos
    cases n with
    | zero => rw [if_pos (by rw [byteLength_cons]; omega)]; rfl
    | succ n =>
      simp only [List.cons_append, charAt?, byteLength_cons]
      by_cases hle : c.utf8Size ≤ n + 1
      · rw [if_pos hle, if_pos hle, ih, Nat.sub_add_eq]
        by_cases hlt : n + 1 - c.utf8Size < byteLength a
        · rw [if_pos hlt, if_pos (by omega)]
        · rw [if_neg hlt, if_neg (by omega)]
      · rw [if_neg hle, if_neg hle, if_pos (by omega)]

namespace Cursor

/-! ## Paths -/

/-- `text` is what stands between the places `c` and `d`. -/
structure Path (c : Cursor) (text : List Char) (d : Cursor) : Prop where
  rest : c.rest = text ++ d.rest
  offset : d.offset = c.offset + byteLength text

variable {c d e : Cursor} {t u : List Char}

theorem Path.refl (c : Cursor) : c.Path [] c := ⟨rfl, rfl⟩

theorem Path.trans (h : c.Path t d) (h' : d.Path u e) : c.Path (t ++ u) e where
  rest := by rw [h.rest, h'.rest, List.append_assoc]
  offset := by rw [h'.offset, h.offset, byteLength_append, Nat.add_assoc]

theorem Path.le (h : c.Path t d) : c.offset ≤ d.offset := by
  have := h.offset
  omega

theorem Path.length_le (h : c.Path t d) : d.rest.length ≤ c.rest.length := by
  rw [h.rest, List.length_append]
  omega

theorem Path.length_lt (h : c.Path t d) (ht : t ≠ []) : d.rest.length < c.rest.length := by
  have := List.length_pos_iff.mpr ht
  rw [h.rest, List.length_append]
  omega

theorem Path.lt (h : c.Path t d) (ht : t ≠ []) : c.offset < d.offset := by
  have := byteLength_pos ht
  have := h.offset
  omega

theorem Path.ne_nil (h : c.Path t d) (hlt : c.offset < d.offset) : t ≠ [] := by
  rintro rfl
  have := h.offset
  simp only [byteLength_nil] at this
  omega

theorem path_drop (c : Cursor) (n : Nat) : c.Path (c.rest.take n) (c.drop n) where
  rest := by rw [rest_drop, List.take_append_drop]
  offset := offset_drop c n

theorem Path.drop_length (h : c.Path t d) : c.drop t.length = d := by
  obtain ⟨o, r⟩ := d
  have hr := rest_drop c t.length
  have ho := offset_drop c t.length
  rw [h.rest] at hr ho
  rw [List.drop_left] at hr
  rw [List.take_left, ← h.offset] at ho
  cases hc : c.drop t.length
  simp_all

theorem path_cons {ch : Char} {rest : List Char} (h : c.rest = ch :: rest) : c.Path [ch] (c.drop 1) := by
  simpa [h] using path_drop c 1

/-- A place on the way to another one splits the path. -/
theorem Path.split (h : c.Path t d) (h' : c.Path u e) (hle : d.offset ≤ e.offset) :
    ∃ v, u = t ++ v ∧ d.Path v e := by
  have ht : t <+: c.rest := ⟨_, h.rest.symm⟩
  have hu : u <+: c.rest := ⟨_, h'.rest.symm⟩
  have hlen : byteLength t ≤ byteLength u := by
    have := h.offset
    have := h'.offset
    omega
  obtain ⟨v, rfl⟩ : t <+: u := by
    rcases List.prefix_or_prefix_of_prefix ht hu with hp | ⟨v, rfl⟩
    · exact hp
    · rw [byteLength_append] at hlen
      have hv : v = [] := byteLength_eq_zero (by omega)
      simp [hv]
  refine ⟨v, rfl, ?_, ?_⟩
  · have := h'.rest
    rw [h.rest, List.append_assoc] at this
    exact List.append_cancel_left this
  · rw [h'.offset, h.offset, byteLength_append, Nat.add_assoc]

theorem Path.eq_of_offset_eq (h : c.Path t d) (h' : c.Path u e) (heq : d.offset = e.offset) : d = e := by
  obtain ⟨v, -, hv⟩ := h.split h' (Nat.le_of_eq heq)
  have hnil : v = [] := byteLength_eq_zero (by have := hv.offset; omega)
  have := hv.drop_length
  rw [hnil] at this
  exact this

/-- The first character of a path that is not empty. -/
theorem Path.head_mem {ch : Char} {rest : List Char} (h : c.Path t d) (hrest : c.rest = ch :: rest)
    (hlt : c.offset < d.offset) : ch ∈ t ∧ c.offset + ch.utf8Size ≤ d.offset := by
  cases t with
  | nil =>
    have := h.offset
    simp at this
    omega
  | cons ch' t =>
    have heq : ch = ch' := by
      have := h.rest
      rw [hrest] at this
      simp only [List.cons_append, List.cons.injEq] at this
      exact this.1
    subst heq
    refine ⟨by simp, ?_⟩
    rw [h.offset, byteLength_cons]
    omega

/-- The text up to a place is the path's. -/
theorem Path.upTo (h : c.Path t d) : c.upTo d.offset = t := by
  have hlen : d.offset - c.offset = byteLength t := by
    have := h.offset
    omega
  rw [Cursor.upTo, hlen, h.rest, takeBytes_append]

theorem Path.dropBytes (h : c.Path t d) : dropBytes c.rest (d.offset - c.offset) = d.rest := by
  have hlen : d.offset - c.offset = byteLength t := by
    have := h.offset
    omega
  rw [hlen, h.rest, dropBytes_append]

/-- `d` is the place `c`, or one behind it. -/
def Reaches (c d : Cursor) : Prop := ∃ t, c.Path t d

theorem Path.reaches (h : c.Path t d) : c.Reaches d := ⟨t, h⟩

theorem Reaches.refl (c : Cursor) : c.Reaches c := ⟨[], .refl c⟩

theorem Reaches.trans (h : c.Reaches d) (h' : d.Reaches e) : c.Reaches e := by
  obtain ⟨_, h⟩ := h
  obtain ⟨_, h'⟩ := h'
  exact ⟨_, h.trans h'⟩

theorem reaches_drop (c : Cursor) (n : Nat) : c.Reaches (c.drop n) := (path_drop c n).reaches

theorem Reaches.le (h : c.Reaches d) : c.offset ≤ d.offset := by
  obtain ⟨_, h⟩ := h
  exact h.le

theorem Reaches.length_le (h : c.Reaches d) : d.rest.length ≤ c.rest.length := by
  obtain ⟨_, h⟩ := h
  exact h.length_le

/-- Of two places reached from a third the one with the smaller offset reaches the other. -/
theorem Reaches.of_le (h : c.Reaches d) (h' : c.Reaches e) (hle : d.offset ≤ e.offset) : d.Reaches e := by
  obtain ⟨_, h⟩ := h
  obtain ⟨_, h'⟩ := h'
  obtain ⟨v, -, hv⟩ := h.split h' hle
  exact ⟨v, hv⟩

theorem Reaches.eq_of_offset_eq (h : c.Reaches d) (h' : c.Reaches e) (heq : d.offset = e.offset) :
    d = e := by
  obtain ⟨_, h⟩ := h
  obtain ⟨_, h'⟩ := h'
  exact h.eq_of_offset_eq h' heq

/-! ## Places of a text -/

/-- The cursor is a place of the text. -/
def On (cs : List Char) (c : Cursor) : Prop := (ofText cs).Reaches c

variable {cs : List Char}

theorem on_ofText (cs : List Char) : (ofText cs).On cs := ⟨[], .refl _⟩

theorem On.reaches (h : c.On cs) (hd : c.Reaches d) : d.On cs := Reaches.trans h hd

theorem On.isBoundary (h : c.On cs) : isBoundary cs c.offset = true := by
  obtain ⟨before, hb⟩ := h
  exact isBoundary_iff.mpr ⟨before, c.rest, hb.rest, by simpa [ofText] using hb.offset.symm⟩

theorem On.le (h : c.On cs) : c.offset ≤ byteLength cs := isBoundary_le h.isBoundary

/-- A boundary of a text is a place of it. -/
theorem on_atOffset {n : Nat} (h : Mdx.isBoundary cs n = true) : (atOffset cs n).On cs := by
  obtain ⟨a, b, rfl, rfl⟩ := isBoundary_iff.mp h
  exact ⟨a, by simp [ofText, atOffset, dropBytes_append], by simp [ofText, atOffset]⟩

theorem On.atOffset_eq (h : c.On cs) : atOffset cs c.offset = c := by
  obtain ⟨before, hb⟩ := h
  obtain ⟨before', hb'⟩ := on_atOffset (On.isBoundary ⟨before, hb⟩)
  exact hb'.eq_of_offset_eq hb rfl

/-- Two places of a text are joined by a path if they are in order. -/
theorem On.reaches_of_le (hc : c.On cs) (hd : d.On cs) (hle : c.offset ≤ d.offset) : c.Reaches d :=
  Reaches.of_le hc hd hle

/-- The slice between two places of a text is what stands between them. -/
theorem On.slice (hc : c.On cs) (hp : c.Path t d) : slice cs (c.spanTo d.offset) = t := by
  have hrest : dropBytes cs c.offset = c.rest := by
    have := hc.atOffset_eq
    rw [← this]
    rfl
  have hlen : (c.spanTo d.offset).length = byteLength t := by
    have := hp.offset
    simp only [Span.length, spanTo]
    omega
  rw [Mdx.slice, hlen]
  simp only [spanTo]
  rw [hrest, hp.rest, takeBytes_append]

/-- The end of a text. -/
def ofEnd (cs : List Char) : Cursor := ⟨byteLength cs, []⟩

theorem path_ofEnd (cs : List Char) : (ofText cs).Path cs (ofEnd cs) :=
  ⟨by simp [ofText, ofEnd], by simp [ofText, ofEnd]⟩

theorem On.path_ofEnd (h : c.On cs) : c.Path c.rest (ofEnd cs) := by
  obtain ⟨before, hb⟩ := h
  obtain ⟨v, -, hv⟩ := hb.split (Cursor.path_ofEnd cs) (On.le ⟨before, hb⟩)
  have : c.rest = v := by simpa [ofEnd] using hv.rest
  rwa [this]

theorem charAt?_offset (h : c.On cs) {ch : Char} {rest : List Char} (hr : c.rest = ch :: rest) :
    charAt? cs c.offset = some ch := by
  obtain ⟨before, hb⟩ := h
  have ho : c.offset = byteLength before := by simpa [ofText] using hb.offset
  have hcs : cs = before ++ ch :: rest := by simpa [ofText, hr] using hb.rest
  rw [ho, hcs, charAt?_append]

theorem on_of_charAt? {n : Nat} {ch : Char} (h : charAt? cs n = some ch) :
    ∃ c : Cursor, c.On cs ∧ c.offset = n ∧ ∃ rest, c.rest = ch :: rest := by
  obtain ⟨a, b, rfl, rfl⟩ := charAt?_eq_some h
  exact ⟨⟨byteLength a, ch :: b⟩, ⟨a, by simp [ofText], by simp [ofText]⟩, rfl, b, rfl⟩

end Cursor

end Mdx
