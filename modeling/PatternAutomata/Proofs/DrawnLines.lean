import PatternAutomata.Automaton.Graphviz

/-!
# The lines of a drawing can be told apart

Labels are drawn without escapes, so a label may look like the text around it.  But it is one
character long, and everything else that varies in a line is a number, behind which there
stands a character that is no digit.  So each line shows where it ends, whatever it is about
and whatever follows (`isDelimited_nodeText`, `isDelimited_edgeText`).  The line of a state
goes on with a bracket where the line of an edge goes on with a blank
(`nodeText_append_ne_edgeText`).

Lines that show where they end can be read off one by one, as long as what follows the last
of them does not begin like another line (`intercalate_newline_inj`).
-/

namespace PatternAutomata

namespace Graphviz

/-- A way of writing after which one can tell what was written and where it ends. -/
def IsDelimited {α : Type} (write : α → String) : Prop :=
  ∀ a b u v, (write a).toList ++ u = (write b).toList ++ v → a = b ∧ u = v

/-! ### Numbers -/

theorem takeWhile_toDigits {n : Nat} {c : Char} {u : List Char} (hc : c.isDigit = false) :
    (Nat.toDigits 10 n ++ c :: u).takeWhile Char.isDigit = Nat.toDigits 10 n := by
  have hdigits : ∀ d ∈ Nat.toDigits 10 n, d.isDigit = true := by
    intro d hd
    exact Nat.isDigit_of_mem_toDigits (by decide) (by decide) hd
  rw [List.takeWhile_append_of_pos hdigits, List.takeWhile_cons_of_neg (by simp [hc]),
    List.append_nil]

/-- **A number ends where there is no further digit.** -/
theorem toDigits_append_inj {m n : Nat} {c d : Char} {u v : List Char}
    (hc : c.isDigit = false) (hd : d.isDigit = false)
    (happend : Nat.toDigits 10 m ++ c :: u = Nat.toDigits 10 n ++ d :: v) :
    m = n ∧ c = d ∧ u = v := by
  have hdigits := congrArg (List.takeWhile Char.isDigit) happend
  rw [takeWhile_toDigits hc, takeWhile_toDigits hd] at hdigits
  have hnumber := congrArg (Nat.ofDigitChars 10 · 0) hdigits
  simp only [Nat.ofDigitChars_ten_toDigits] at hnumber
  subst hnumber
  exact ⟨rfl, List.cons.inj (List.append_cancel_left happend)⟩

/-! ### States -/

/-- The ways in which a state is drawn. -/
inductive Role where
  | accepting
  | initial
  | inner
  deriving DecidableEq, Repr

/-- The way in which a state of an automaton is drawn. -/
def role (A : Automaton) (s : Nat) : Role :=
  if s = A.accept then .accepting else if s = A.start then .initial else .inner

/-- What stands behind the label of a state. -/
def Role.mark : Role → String
  | accepting => " shape=doublecircle]"
  | initial => "][fillcolor=green]"
  | inner => "][fillcolor=\"#EEEEEE\" fontcolor=\"#888888\"]"

/-- The line of a state that is drawn in the given way. -/
def nodeText (drawn : Nat × Role) : String :=
  node drawn.1 ++ "[label=\"" ++ toString drawn.1 ++ "\"" ++ drawn.2.mark

theorem nodeLine_eq (A : Automaton) (s : Nat) : nodeLine A s = nodeText (s, role A s) := by
  unfold nodeLine role
  split
  · rfl
  · split
    · rfl
    · rfl

theorem toList_nodeText (drawn : Nat × Role) :
    (nodeText drawn).toList = "node_".toList ++ (Nat.toDigits 10 drawn.1 ++ '[' ::
      ("label=\"".toList ++ (Nat.toDigits 10 drawn.1 ++ '"' :: drawn.2.mark.toList))) := by
  simp [nodeText, node]

theorem Role.isDelimited_mark : IsDelimited Role.mark := by
  intro a b u v hmarks
  cases a <;> cases b <;> simp_all [mark]

theorem isDelimited_nodeText : IsDelimited nodeText := by
  intro ⟨s, r⟩ ⟨t, q⟩ u v hlines
  simp only [toList_nodeText, List.append_assoc, List.cons_append] at hlines
  obtain ⟨rfl, -, hlabels⟩ :=
    toDigits_append_inj (by decide) (by decide) (List.append_cancel_left hlines)
  obtain ⟨-, -, hmarks⟩ :=
    toDigits_append_inj (by decide) (by decide) (List.append_cancel_left hlabels)
  obtain ⟨rfl, hrest⟩ := Role.isDelimited_mark r q u v hmarks
  exact ⟨rfl, hrest⟩

/-! ### Edges -/

/-- What stands behind the target of an edge. -/
def labelMark : Option Char → String
  | some c => "label=\"" ++ String.singleton c ++ "\"]"
  | none => "style=dashed]"

/-- The line of an edge, given with its source. -/
def edgeText (drawn : Nat × Edge) : String :=
  edgeLine drawn.1 drawn.2

theorem toList_edgeText (drawn : Nat × Edge) :
    (edgeText drawn).toList = "node_".toList ++ (Nat.toDigits 10 drawn.1 ++ ' ' ::
      ("-> node_".toList ++ (Nat.toDigits 10 drawn.2.target ++ '[' ::
        (labelMark drawn.2.label).toList))) := by
  obtain ⟨s, label, target⟩ := drawn
  cases label with
  | none => simp [edgeText, edgeLine, node, labelMark]
  | some c => simp [edgeText, edgeLine, node, labelMark]

/-- **Every label shows where it ends**, quotes, brackets and line breaks included. -/
theorem isDelimited_labelMark : IsDelimited labelMark := by
  intro a b u v hlabels
  cases a <;> cases b <;> simp_all [labelMark]

theorem isDelimited_edgeText : IsDelimited edgeText := by
  intro ⟨s, label, target⟩ ⟨t, label', target'⟩ u v hlines
  simp only [toList_edgeText, List.append_assoc, List.cons_append] at hlines
  obtain ⟨rfl, -, htargets⟩ :=
    toDigits_append_inj (by decide) (by decide) (List.append_cancel_left hlines)
  obtain ⟨rfl, -, hlabels⟩ :=
    toDigits_append_inj (by decide) (by decide) (List.append_cancel_left htargets)
  obtain ⟨rfl, hrest⟩ := isDelimited_labelMark label label' u v hlabels
  exact ⟨rfl, hrest⟩

theorem nodeText_append_ne_newline (drawn : Nat × Role) (u v : List Char) :
    (nodeText drawn).toList ++ u ≠ '\n' :: v := by
  simp [toList_nodeText]

theorem edgeText_append_ne_newline (drawn : Nat × Edge) (u v : List Char) :
    (edgeText drawn).toList ++ u ≠ '\n' :: v := by
  simp [toList_edgeText]

theorem nodeText_append_ne_edgeText (drawn : Nat × Role) (edge : Nat × Edge) (u v : List Char) :
    (nodeText drawn).toList ++ u ≠ (edgeText edge).toList ++ v := by
  intro hlines
  simp only [toList_nodeText, toList_edgeText, List.append_assoc, List.cons_append] at hlines
  obtain ⟨-, hbracket, -⟩ :=
    toDigits_append_inj (by decide) (by decide) (List.append_cancel_left hlines)
  exact absurd hbracket (by decide)

/-! ### Lines -/

section Lines

variable {α : Type} {write : α → String} {xs ys : List α} {u v : List Char}

/-- **Lines that show where they end can be read off one by one**, up to a text that does not
begin like a line. -/
theorem lines_append_inj (hwrite : IsDelimited write)
    (hu : ∀ a w, (write a).toList ++ w ≠ u) (hv : ∀ a w, (write a).toList ++ w ≠ v)
    (hlines : xs.flatMap (fun a => (write a).toList ++ ['\n']) ++ u =
      ys.flatMap (fun a => (write a).toList ++ ['\n']) ++ v) :
    xs = ys ∧ u = v := by
  induction xs generalizing ys with
  | nil =>
      cases ys with
      | nil => exact ⟨rfl, hlines⟩
      | cons b ys =>
          simp only [List.flatMap_cons, List.append_assoc] at hlines
          exact absurd hlines.symm (hu b _)
  | cons a xs ih =>
      cases ys with
      | nil =>
          simp only [List.flatMap_cons, List.append_assoc] at hlines
          exact absurd hlines (hv a _)
      | cons b ys =>
          simp only [List.flatMap_cons, List.append_assoc] at hlines
          obtain ⟨rfl, hbehind⟩ := hwrite a b _ _ hlines
          obtain ⟨rfl, hrest⟩ := ih (List.append_cancel_left hbehind)
          exact ⟨rfl, hrest⟩

/-- Lines between which there are line breaks, with one more behind the last of them, or that
one alone. -/
theorem intercalate_newline (xs : List α) (u : List Char) :
    ("\n".intercalate (xs.map write)).toList ++ '\n' :: u =
      xs.flatMap (fun a => (write a).toList ++ ['\n']) ++ if xs = [] then '\n' :: u else u := by
  induction xs with
  | nil => simp
  | cons a xs ih =>
      cases xs with
      | nil => simp
      | cons b xs =>
          rw [if_neg (List.cons_ne_nil _ _)] at ih ⊢
          rw [List.flatMap_cons, List.append_assoc, ← ih]
          simp

/-- The same for lines with line breaks between them, of which there may be none. -/
theorem intercalate_newline_inj (hwrite : IsDelimited write)
    (hbreak : ∀ a w w', (write a).toList ++ w ≠ '\n' :: w')
    (hu : ∀ a w, (write a).toList ++ w ≠ u) (hv : ∀ a w, (write a).toList ++ w ≠ v)
    (hlines : ("\n".intercalate (xs.map write)).toList ++ '\n' :: u =
      ("\n".intercalate (ys.map write)).toList ++ '\n' :: v) :
    xs = ys ∧ u = v := by
  have hbehind : ∀ (xs : List α) u, (∀ a w, (write a).toList ++ w ≠ u) →
      ∀ a w, (write a).toList ++ w ≠ if xs = [] then '\n' :: u else u := by
    intro xs u hu a w
    split
    · exact hbreak a w u
    · exact hu a w
  rw [intercalate_newline, intercalate_newline] at hlines
  obtain ⟨rfl, hrest⟩ := lines_append_inj hwrite (hbehind xs u hu) (hbehind ys v hv) hlines
  refine ⟨rfl, ?_⟩
  split at hrest
  · exact (List.cons.inj hrest).2
  · exact hrest

end Lines

/-- The lines of the edges never begin like the line of a state, even if there are none. -/
theorem nodeText_append_ne_edgeTexts (drawn : Nat × Role) (edges : List (Nat × Edge))
    (u v : List Char) :
    (nodeText drawn).toList ++ u ≠
      ("\n".intercalate (edges.map edgeText)).toList ++ '\n' :: v := by
  rw [intercalate_newline]
  cases edges with
  | nil => exact nodeText_append_ne_newline drawn u v
  | cons edge rest =>
      simp only [List.flatMap_cons, List.append_assoc]
      exact nodeText_append_ne_edgeText drawn edge u _

end Graphviz

end PatternAutomata
