import Mathlib.Data.List.Nodup

/-!
# Parts by their text

The text of a name joins the texts of its attributes, with one separator where a part begins and with another one within a
part. Texts in which no separator begins, and that do not start with a plus, can be told apart in it again, and so can parts.
-/
namespace CertRotation.Certificate

/-! ## Texts behind their separators -/

/-- What stands between a text and the one before it, which is in another part or in the same one. -/
def separator (start : Bool) : List Char := if start then [',', ' '] else [' ', '+', ' ']

/-- Texts, each behind its separator. -/
def joined (texts : List (Bool × List Char)) : List Char := texts.flatMap fun t => separator t.1 ++ t.2

/-- A text in which no separator begins. -/
structure Clear (s : List Char) : Prop where
  comma : ¬ [',', ' '] <:+: s
  plus : ¬ [' ', '+'] <:+: s
  head : s.head? ≠ some '+'

section
variable {x y : List (Bool × List Char)} {s s' d : List Char}

theorem joined_cons (start : Bool) (s : List Char) (x : List (Bool × List Char)) :
    joined ((start, s) :: x) = separator start ++ (s ++ joined x) := by
  rw [joined, List.flatMap_cons, List.append_assoc]
  rfl

theorem head?_joined : (joined x).head? ≠ some '+' := by
  cases x with
  | nil => simp [joined]
  | cons t x =>
    obtain ⟨start, s⟩ := t
    rw [joined_cons]
    cases start <;> simp [separator]

theorem Clear.head?_append (h : Clear s) : (s ++ joined x).head? ≠ some '+' := by
  cases s with
  | nil => exact head?_joined
  | cons c s => exact h.head

theorem infix_append (a b : Char) (s d : List Char) : [a, b] <:+: s ++ a :: b :: d := ⟨s, d, by simp⟩

/-- A text ends where the first separator begins. -/
theorem rest_eq_nil (hx : ∀ t ∈ x, Clear t.2) (hs : Clear (s ++ d)) (h : joined x = d ++ joined y) : d = [] := by
  cases d with
  | nil => rfl
  | cons c d =>
    exfalso
    cases x with
    | nil => cases h
    | cons t x =>
      obtain ⟨start, text⟩ := t
      have hnext := (hx _ List.mem_cons_self).head?_append (x := x)
      rw [joined_cons] at h
      cases start with
      | true =>
        have hcons : ',' :: ' ' :: (text ++ joined x) = c :: (d ++ joined y) := h
        obtain ⟨rfl, htail⟩ := List.cons.inj hcons
        cases d with
        | cons e d =>
          obtain ⟨rfl, -⟩ := List.cons.inj htail
          exact hs.comma (infix_append _ _ s d)
        | nil =>
          -- the comma would be the last character of the text, in front of a plus that starts the next one
          cases y with
          | nil => cases htail
          | cons t' y =>
            obtain ⟨start', text'⟩ := t'
            rw [List.nil_append, joined_cons] at htail
            cases start' with
            | true => exact absurd (List.cons.inj htail).1 (by decide)
            | false =>
              rw [(List.cons.inj htail).2] at hnext
              exact hnext rfl
      | false =>
        have hcons : ' ' :: '+' :: ' ' :: (text ++ joined x) = c :: (d ++ joined y) := h
        obtain ⟨rfl, htail⟩ := List.cons.inj hcons
        cases d with
        | cons e d =>
          obtain ⟨rfl, -⟩ := List.cons.inj htail
          exact hs.plus (infix_append _ _ s d)
        | nil =>
          rw [List.nil_append] at htail
          exact head?_joined (x := y) (htail ▸ rfl)

theorem text_eq_of_joined (hx : ∀ t ∈ x, Clear t.2) (hy : ∀ t ∈ y, Clear t.2) (hs : Clear s) (hs' : Clear s')
    (h : s ++ joined x = s' ++ joined y) : s = s' := by
  rcases List.append_eq_append_iff.mp h with ⟨d, rfl, hd⟩ | ⟨d, rfl, hd⟩
  · rw [rest_eq_nil hx hs' hd, List.append_nil]
  · rw [rest_eq_nil hy hs hd, List.append_nil]

theorem joined_injective (hx : ∀ t ∈ x, Clear t.2) (hy : ∀ t ∈ y, Clear t.2) (h : joined x = joined y) : x = y := by
  have hne : ∀ (t : Bool × List Char) (z : List (Bool × List Char)), joined (t :: z) ≠ [] := by
    rintro ⟨start, s⟩ z
    rw [joined_cons]
    cases start <;> simp [separator]
  induction x generalizing y with
  | nil =>
    cases y with
    | nil => rfl
    | cons t y => exact absurd h.symm (hne t y)
  | cons t x ih =>
    cases y with
    | nil => exact absurd h (hne t x)
    | cons t' y =>
      obtain ⟨start, s⟩ := t
      obtain ⟨start', s'⟩ := t'
      rw [joined_cons, joined_cons] at h
      obtain ⟨hs, hxs⟩ := List.forall_mem_cons.mp hx
      obtain ⟨hs', hys⟩ := List.forall_mem_cons.mp hy
      obtain rfl : start = start' := by
        cases start <;> cases start' <;> first | rfl | exact absurd (List.cons.inj h).1 (by decide)
      have hrest := List.append_cancel_left h
      obtain rfl : s = s' := text_eq_of_joined hxs hys hs hs' hrest
      rw [ih hxs hys (List.append_cancel_left hrest)]

end

/-! ## Texts of parts -/

/-- The texts of a part, the first of them marked. -/
def markPart : List (List Char) → List (Bool × List Char)
  | [] => []
  | s :: rest => (true, s) :: rest.map (false, ·)

def marked (parts : List (List (List Char))) : List (Bool × List Char) := parts.flatMap markPart

/-- Parts as they stand in the text of a name. -/
def partsText (parts : List (List (List Char))) : List Char :=
  [',', ' '].intercalate (parts.map [' ', '+', ' '].intercalate)

/-- Parts with texts that can be told apart. -/
structure Readable (parts : List (List (List Char))) : Prop where
  nonempty : [] ∉ parts
  clear : ∀ part ∈ parts, ∀ s ∈ part, Clear s ∧ s ≠ []

section
variable {parts parts' : List (List (List Char))}

theorem append_intercalate (between s : List Char) (rest : List (List Char)) :
    between ++ between.intercalate (s :: rest) = (s :: rest).flatMap (between ++ ·) := by
  induction rest generalizing s with
  | nil => simp
  | cons next rest ih =>
    rw [List.intercalate_cons_cons, List.append_assoc, ih, List.flatMap_cons (x := s), List.append_assoc]

theorem joined_append (x y : List (Bool × List Char)) : joined (x ++ y) = joined x ++ joined y := List.flatMap_append

theorem joined_markPart {part : List (List Char)} (h : part ≠ []) :
    joined (markPart part) = [',', ' '] ++ [' ', '+', ' '].intercalate part := by
  cases part with
  | nil => exact absurd rfl h
  | cons s rest =>
    have hrest : joined (rest.map (false, ·)) = rest.flatMap ([' ', '+', ' '] ++ ·) := by
      rw [joined, List.flatMap_map]
      rfl
    have hjoin := append_intercalate [' ', '+', ' '] s rest
    rw [List.flatMap_cons, List.append_assoc] at hjoin
    rw [markPart, joined_cons, hrest, List.append_cancel_left hjoin]
    rfl

theorem joined_marked (h : [] ∉ parts) (hne : parts ≠ []) : joined (marked parts) = [',', ' '] ++ partsText parts := by
  have hflat : ∀ l : List (List (List Char)), [] ∉ l →
      joined (marked l) = (l.map [' ', '+', ' '].intercalate).flatMap ([',', ' '] ++ ·) := by
    intro l hl
    induction l with
    | nil => rfl
    | cons part l ih =>
      have hpart : part ≠ [] := (List.ne_of_not_mem_cons hl).symm
      rw [marked, List.flatMap_cons, joined_append, joined_markPart hpart, List.map_cons, List.flatMap_cons]
      exact congrArg _ (ih (List.not_mem_of_not_mem_cons hl))
  cases parts with
  | nil => exact absurd rfl hne
  | cons part parts => rw [hflat _ h, partsText, List.map_cons, append_intercalate]

/-- The marks show where a part ends. -/
theorem marked_injective (h : [] ∉ parts) (h' : [] ∉ parts') (heq : marked parts = marked parts') : parts = parts' := by
  have hstop : ∀ l : List (List (List Char)), [] ∉ l → (marked l).takeWhile (fun t => !t.1) = [] := by
    intro l hl
    cases l with
    | nil => rfl
    | cons part l =>
      cases part with
      | nil => exact absurd List.mem_cons_self hl
      | cons s rest => rfl
  have htake : ∀ (rest : List (List Char)) (l : List (List (List Char))), [] ∉ l →
      (rest.map (false, ·) ++ marked l).takeWhile (fun t => !t.1) = rest.map (false, ·) := by
    intro rest l hl
    rw [List.takeWhile_append_of_pos (by simp), hstop l hl, List.append_nil]
  induction parts generalizing parts' with
  | nil =>
    cases parts' with
    | nil => rfl
    | cons part parts' =>
      cases part with
      | nil => exact absurd List.mem_cons_self h'
      | cons s rest => cases heq
  | cons part parts ih =>
    cases part with
    | nil => exact absurd List.mem_cons_self h
    | cons s rest =>
      cases parts' with
      | nil => cases heq
      | cons part' parts' =>
        cases part' with
        | nil => exact absurd List.mem_cons_self h'
        | cons s' rest' =>
          have hparts := List.not_mem_of_not_mem_cons h
          have hparts' := List.not_mem_of_not_mem_cons h'
          have hcons : (true, s) :: (rest.map (false, ·) ++ marked parts) =
              (true, s') :: (rest'.map (false, ·) ++ marked parts') := heq
          obtain ⟨hfirst, hrest⟩ := List.cons.inj hcons
          obtain rfl := (Prod.mk.inj hfirst).2
          have hsame : rest.map (false, ·) = rest'.map (false, ·) := by
            rw [← htake rest parts hparts, hrest, htake rest' parts' hparts']
          obtain rfl := (List.map_inj_right fun _ _ h => (Prod.mk.inj h).2).mp hsame
          rw [ih hparts hparts' (List.append_cancel_left hrest)]

theorem partsText_ne_nil (h : Readable parts) (hne : parts ≠ []) : partsText parts ≠ [] := by
  obtain ⟨part, parts, rfl⟩ := List.exists_cons_of_ne_nil hne
  have hpart : part ≠ [] := fun hnil => h.nonempty (hnil ▸ List.mem_cons_self)
  obtain ⟨s, rest, rfl⟩ := List.exists_cons_of_ne_nil hpart
  have hs := (h.clear _ List.mem_cons_self s List.mem_cons_self).2
  intro hnil
  have hjoined := joined_marked h.nonempty hne
  rw [hnil, marked, List.flatMap_cons, markPart, List.cons_append, joined_cons] at hjoined
  have hlen := congrArg List.length hjoined
  have hpos := List.length_pos_iff.mpr hs
  simp only [separator, if_true, List.length_append, List.length_cons, List.length_nil] at hlen
  omega

theorem readable_marked (h : Readable parts) : ∀ t ∈ marked parts, Clear t.2 := by
  rintro ⟨start, s⟩ ht
  obtain ⟨part, hpart, hmem⟩ := List.mem_flatMap.mp ht
  refine (h.clear part hpart s ?_).1
  cases part with
  | nil => cases hmem
  | cons first rest =>
    rcases List.mem_cons.mp hmem with heq | hrest
    · exact (Prod.mk.inj heq).2 ▸ List.mem_cons_self
    · obtain ⟨x, hx, heq⟩ := List.mem_map.mp hrest
      exact (Prod.mk.inj heq).2 ▸ List.mem_cons_of_mem first hx

/-- Readable parts are determined by their text. -/
theorem partsText_injective (h : Readable parts) (h' : Readable parts') (heq : partsText parts = partsText parts') :
    parts = parts' := by
  by_cases hne : parts = []
  · by_cases hne' : parts' = []
    · rw [hne, hne']
    · rw [hne] at heq
      exact absurd heq.symm (partsText_ne_nil h' hne')
  · by_cases hne' : parts' = []
    · rw [hne'] at heq
      exact absurd heq (partsText_ne_nil h hne)
    · refine marked_injective h.nonempty h'.nonempty (joined_injective (readable_marked h) (readable_marked h') ?_)
      rw [joined_marked h.nonempty hne, joined_marked h'.nonempty hne', heq]

end

end CertRotation.Certificate
