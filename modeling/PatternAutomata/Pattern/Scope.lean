import PatternAutomata.Counter

/-!
# Parentheses and scopes

The content of a parenthesised group is read in place: a scope is the stretch of
the pattern between an opening parenthesis and its closer.  `closer?` finds that
closer by counting parentheses.  It never looks beyond the scope it is asked
about, and what it finds lies behind the opening parenthesis; its type says so.

The count is kept in a word of 32 bits.  It is the depth as long as fewer
parentheses are open than such a word can count; where that many are, it becomes
negative, and the search ends as if the last of them were the closer.

A `)` that closes nothing ends a pattern.  `visible` is what stands before the
first one, said on lists and without positions.
-/

namespace PatternAutomata

/-- The count of open parentheses behind a character. -/
def openAfter (depth : Int32) (c : Char) : Int32 :=
  if c = '(' then depth + 1 else if c = ')' then depth - 1 else depth

/-- The index of the `)` that closes the parenthesis at `opener`, searched from
`pos` up to but not including `stop`, when `depth` parentheses are open.  It is
where the count of open parentheses is no longer positive. -/
def closer? (cs : Array Char) (stop : Nat) (hstop : stop ≤ cs.size) (opener pos : Nat)
    (hafter : opener < pos) (depth : Int32) :
    Option { close : Nat // opener < close ∧ close < stop } :=
  if hpos : pos < stop then
    if 0 < openAfter depth cs[pos] then
      closer? cs stop hstop opener (pos + 1) (by omega) (openAfter depth cs[pos])
    else
      some ⟨pos, hafter, hpos⟩
  else
    none
  termination_by stop - pos

/-- What stands before the first `)` without a partner, when `depth` parentheses
are open already. -/
def visibleFrom (depth : Nat) : List Char → List Char
  | [] => []
  | c :: rest =>
    if c = '(' then
      c :: visibleFrom (depth + 1) rest
    else if c = ')' then
      match depth with
      | 0 => []
      | depth + 1 => c :: visibleFrom depth rest
    else
      c :: visibleFrom depth rest

/-- The part of a pattern that counts: all of it up to the first `)` that closes
nothing. -/
def visible (cs : List Char) : List Char :=
  visibleFrom 0 cs

@[simp] theorem visibleFrom_open (depth : Nat) (rest : List Char) :
    visibleFrom depth ('(' :: rest) = '(' :: visibleFrom (depth + 1) rest := by
  simp [visibleFrom]

@[simp] theorem visibleFrom_close_zero (rest : List Char) : visibleFrom 0 (')' :: rest) = [] := by
  simp [visibleFrom]

@[simp] theorem visibleFrom_close_succ (depth : Nat) (rest : List Char) :
    visibleFrom (depth + 1) (')' :: rest) = ')' :: visibleFrom depth rest := by
  simp [visibleFrom]

/-- Other characters leave the depth as it is. -/
theorem visibleFrom_cons {c : Char} (depth : Nat) (rest : List Char) (hopen : c ≠ '(')
    (hclose : c ≠ ')') : visibleFrom depth (c :: rest) = c :: visibleFrom depth rest := by
  simp [visibleFrom, hopen, hclose]

/-- The part that counts is an initial part of the pattern. -/
theorem visibleFrom_isPrefix (depth : Nat) (cs : List Char) : visibleFrom depth cs <+: cs := by
  fun_induction visibleFrom depth cs <;> simp_all

/-- More text behind does not take away from the part that counts. -/
theorem visibleFrom_isPrefix_append (depth : Nat) (front back : List Char) :
    visibleFrom depth front <+: visibleFrom depth (front ++ back) := by
  fun_induction visibleFrom depth front <;> simp_all [visibleFrom]

/-- Behind the `)` that ends a pattern nothing counts, whatever follows. -/
theorem visibleFrom_append_of_closed (depth : Nat) (front back : List Char)
    (hclosed : (visibleFrom depth front).length < front.length) :
    visibleFrom depth (front ++ back) = visibleFrom depth front := by
  fun_induction visibleFrom depth front <;> simp_all [visibleFrom]

/-- What does not count is empty or begins with the `)` that ends the pattern. -/
theorem exists_visibleFrom_append (depth : Nat) (cs : List Char) :
    ∃ back, cs = visibleFrom depth cs ++ back ∧ (back = [] ∨ ∃ rest, back = ')' :: rest) := by
  fun_induction visibleFrom depth cs with
  | case1 depth => exact ⟨[], rfl, .inl rfl⟩
  | case2 depth rest ih =>
      obtain ⟨back, hrest, hback⟩ := ih
      exact ⟨back, congrArg ('(' :: ·) hrest, hback⟩
  | case3 rest => exact ⟨')' :: rest, rfl, .inr ⟨rest, rfl⟩⟩
  | case4 rest _ depth ih =>
      obtain ⟨back, hrest, hback⟩ := ih
      exact ⟨back, congrArg (')' :: ·) hrest, hback⟩
  | case5 depth c rest hopen hclose ih =>
      obtain ⟨back, hrest, hback⟩ := ih
      exact ⟨back, congrArg (c :: ·) hrest, hback⟩

@[simp] theorem visible_nil : visible [] = [] :=
  rfl

@[simp] theorem visible_closer (rest : List Char) : visible (')' :: rest) = [] :=
  visibleFrom_close_zero rest

theorem visible_cons {c : Char} (rest : List Char) (hopen : c ≠ '(') (hclose : c ≠ ')') :
    visible (c :: rest) = c :: visible rest :=
  visibleFrom_cons 0 rest hopen hclose

theorem visible_eq_nil_iff {cs : List Char} :
    visible cs = [] ↔ cs = [] ∨ ∃ rest, cs = ')' :: rest := by
  constructor
  · intro hnone
    obtain ⟨back, hback, hend⟩ := exists_visibleFrom_append 0 cs
    rw [← visible, hnone, List.nil_append] at hback
    rwa [hback]
  · intro hends
    rcases hends with rfl | ⟨rest, rfl⟩
    · rfl
    · exact visible_closer rest

/-- Behind the part that counts nothing counts. -/
theorem exists_visible_append (cs : List Char) :
    ∃ back, cs = visible cs ++ back ∧ visible back = [] := by
  obtain ⟨back, hback, hend⟩ := exists_visibleFrom_append 0 cs
  exact ⟨back, hback, visible_eq_nil_iff.mpr hend⟩

/-- What counts of the part that counts is all of it. -/
theorem visibleFrom_visibleFrom (depth : Nat) (cs : List Char) :
    visibleFrom depth (visibleFrom depth cs) = visibleFrom depth cs := by
  fun_induction visibleFrom depth cs <;> simp_all [visibleFrom]

@[simp] theorem visible_visible (cs : List Char) : visible (visible cs) = visible cs :=
  visibleFrom_visibleFrom 0 cs

/-- With one more parenthesis open, what counts goes on behind the `)` that ended it. -/
theorem visibleFrom_succ (depth : Nat) (cs : List Char)
    (hclosed : (visibleFrom depth cs).length < cs.length) :
    visibleFrom (depth + 1) cs =
      visibleFrom depth cs ++ ')' :: visible (cs.drop ((visibleFrom depth cs).length + 1)) := by
  fun_induction visibleFrom depth cs <;> simp_all [visibleFrom, visible]

/-- A closed parenthesis counts together with its content and its closer. -/
theorem visible_open {rest : List Char} (hclosed : (visible rest).length < rest.length) :
    visible ('(' :: rest) =
      '(' :: (visible rest ++ ')' :: visible (rest.drop ((visible rest).length + 1))) := by
  rw [visible, visibleFrom_open, visibleFrom_succ 0 rest hclosed]
  rfl

/-- Where a parenthesis is closed, its content, the closer and the rest follow it. -/
theorem visible_append_drop {rest : List Char} (hclosed : (visible rest).length < rest.length) :
    visible rest ++ ')' :: rest.drop ((visible rest).length + 1) = rest := by
  obtain ⟨back, hback, hend⟩ := exists_visibleFrom_append 0 rest
  rw [← visible] at hback
  rcases hend with rfl | ⟨others, rfl⟩
  · rw [List.append_nil] at hback
    rw [← hback] at hclosed
    exact absurd hclosed (Nat.lt_irrefl _)
  · have hdrop : (visible rest ++ ')' :: others).drop ((visible rest).length + 1) = others := by
      simp
    rw [← hback] at hdrop
    rw [hdrop]
    exact hback.symm

/-- A part of a pattern counts in full or is closed. -/
theorem visible_eq_self_of_not_closed {rest : List Char}
    (hunclosed : ¬ (visible rest).length < rest.length) : visible rest = rest :=
  (visibleFrom_isPrefix 0 rest).eq_of_length_le (Nat.not_lt.1 hunclosed)

/-- The content of a closed parenthesis ends at the closer, whatever follows that. -/
theorem visible_visible_append {rest : List Char} (hclosed : (visible rest).length < rest.length)
    (back : List Char) : visible (visible rest ++ ')' :: back) = visible rest := by
  have hwhole : visible rest ++ [')'] ++ rest.drop ((visible rest).length + 1) = rest := by
    rw [List.append_assoc, List.singleton_append, visible_append_drop hclosed]
  have hinitial : visible (visible rest ++ [')']) <+: visible rest := by
    have hlonger := visibleFrom_isPrefix_append 0 (visible rest ++ [')'])
      (rest.drop ((visible rest).length + 1))
    rwa [hwhole] at hlonger
  have hends : (visible (visible rest ++ [')'])).length < (visible rest ++ [')']).length := by
    rw [List.length_append, List.length_singleton]
    exact Nat.lt_succ_of_le hinitial.length_le
  have hsame : visible rest = visible (visible rest ++ [')']) := by
    have hbehind := visibleFrom_append_of_closed 0 _ (rest.drop ((visible rest).length + 1)) hends
    rwa [hwhole] at hbehind
  rw [List.append_cons, visible, visibleFrom_append_of_closed 0 _ back hends]
  exact hsame.symm

/-- With one more parenthesis open, what counted in full still does. -/
theorem visibleFrom_succ_of_eq_self {depth : Nat} {cs : List Char}
    (hcounts : visibleFrom depth cs = cs) : visibleFrom (depth + 1) cs = cs := by
  fun_induction visibleFrom depth cs <;> simp_all [visibleFrom]

/-- So it does at every depth. -/
theorem visibleFrom_eq_self {cs : List Char} (hcounts : visible cs = cs) (depth : Nat) :
    visibleFrom depth cs = cs := by
  induction depth with
  | zero => exact hcounts
  | succ depth ih => exact visibleFrom_succ_of_eq_self ih

/-- Behind the front of a stretch that counts in full, whatever counts in full by itself
counts as well. -/
theorem visibleFrom_append_eq_self {depth : Nat} {front middle back : List Char}
    (hcounts : visibleFrom depth (front ++ middle) = front ++ middle)
    (hbehind : visible back = back) :
    visibleFrom depth (front ++ back) = front ++ back := by
  induction front generalizing depth with
  | nil => exact visibleFrom_eq_self hbehind depth
  | cons c front ih =>
      rw [List.cons_append] at hcounts ⊢
      by_cases hopen : c = '('
      · subst hopen
        rw [visibleFrom_open] at hcounts ⊢
        rw [ih (List.cons.inj hcounts).2]
      · by_cases hclosed : c = ')'
        · subst hclosed
          cases depth with
          | zero => simp at hcounts
          | succ depth =>
              rw [visibleFrom_close_succ] at hcounts ⊢
              rw [ih (List.cons.inj hcounts).2]
        · rw [visibleFrom_cons _ _ hopen hclosed] at hcounts ⊢
          rw [ih (List.cons.inj hcounts).2]

/-- What counts in full still does with one more parenthesis behind it. -/
theorem visible_concat_open {cs : List Char} (hcounts : visible cs = cs) :
    visible (cs ++ ['(']) = cs ++ ['('] := by
  have hwhole : visibleFrom 0 (cs ++ []) = cs ++ [] := by
    rwa [List.append_nil]
  exact visibleFrom_append_eq_self hwhole rfl

/-- A parenthesis that is not closed counts together with all that follows it. -/
theorem visible_open_unclosed {rest : List Char}
    (hunclosed : ¬ (visible rest).length < rest.length) : visible ('(' :: rest) = '(' :: rest := by
  rw [visible, visibleFrom_open,
    visibleFrom_succ_of_eq_self (visible_eq_self_of_not_closed hunclosed)]

end PatternAutomata
