import PatternAutomata.Pattern.Balanced

/-!
# How deep a pattern is nested

`nesting` is the largest number of parentheses that are open at one place in the
part of a pattern that counts.

The search for the closer of a parenthesis has to count them.  `counted` is what it
passes over: the content of the parenthesis, as long as fewer parentheses are open
than a word can count (`counted_eq_visible`).  Otherwise it is what stands before the
parenthesis that is one too many (`exists_counted_append`).  In that, more
parentheses are opened than closed, so it is not balanced (`not_balanced_counted`).
-/

namespace PatternAutomata

/-- The largest number of parentheses that are open at once in the part that counts,
when `depth` are open already. -/
def crest (depth : Nat) : List Char → Nat
  | [] => depth
  | c :: rest =>
    if c = '(' then
      crest (depth + 1) rest
    else if c = ')' then
      match depth with
      | 0 => 0
      | depth + 1 => max (depth + 1) (crest depth rest)
    else
      crest depth rest

/-- The largest number of parentheses that are open at once in the part of a pattern
that counts. -/
def nesting (cs : List Char) : Nat :=
  crest 0 cs

/-- What stands before the first `)` without a partner, or before the first `(` that
opens more parentheses than a word can count, when `depth` and one more are open
already. -/
def countedFrom (depth : Nat) : List Char → List Char
  | [] => []
  | c :: rest =>
    if c = '(' then
      if depth + 2 < counterLimit then c :: countedFrom (depth + 1) rest else []
    else if c = ')' then
      match depth with
      | 0 => []
      | depth + 1 => c :: countedFrom depth rest
    else
      c :: countedFrom depth rest

/-- What the search for the closer of a parenthesis passes over. -/
def counted (cs : List Char) : List Char :=
  countedFrom 0 cs

section Crest

variable {depth : Nat} {c : Char} {cs rest : List Char}

@[simp] theorem crest_nil (depth : Nat) : crest depth [] = depth :=
  rfl

@[simp] theorem crest_open (depth : Nat) (rest : List Char) :
    crest depth ('(' :: rest) = crest (depth + 1) rest := by
  simp [crest]

@[simp] theorem crest_close_zero (rest : List Char) : crest 0 (')' :: rest) = 0 := by
  simp [crest]

@[simp] theorem crest_close_succ (depth : Nat) (rest : List Char) :
    crest (depth + 1) (')' :: rest) = max (depth + 1) (crest depth rest) := by
  simp [crest]

theorem crest_cons (depth : Nat) (rest : List Char) (hopen : c ≠ '(') (hclose : c ≠ ')') :
    crest depth (c :: rest) = crest depth rest := by
  simp [crest, hopen, hclose]

theorem le_crest (depth : Nat) (cs : List Char) : depth ≤ crest depth cs := by
  fun_induction crest depth cs <;> omega

/-- What does not count is not looked at. -/
theorem crest_visibleFrom (depth : Nat) (cs : List Char) :
    crest depth (visibleFrom depth cs) = crest depth cs := by
  fun_induction visibleFrom depth cs <;> simp_all [crest]

@[simp] theorem nesting_visible (cs : List Char) : nesting (visible cs) = nesting cs :=
  crest_visibleFrom 0 cs

/-- With one more parenthesis open, one more is open up to the `)` that closes it, and
what follows that has its own depth. -/
theorem crest_succ (hclosed : (visibleFrom depth cs).length < cs.length) :
    crest (depth + 1) cs =
      max (crest depth cs + 1) (nesting (cs.drop ((visibleFrom depth cs).length + 1))) := by
  fun_induction visibleFrom depth cs with
  | case1 depth => cases hclosed
  | case2 depth rest ih => simpa using ih (by simpa using hclosed)
  | case3 rest => simp [nesting]
  | case4 rest _ depth ih =>
      have hrest := ih (by simpa using hclosed)
      simp only [crest_close_succ, hrest, List.length_cons, List.drop_succ_cons]
      omega
  | case5 depth c rest hopen hclose ih =>
      rw [crest_cons _ _ hopen hclose, crest_cons _ _ hopen hclose]
      simpa using ih (by simpa using hclosed)

/-- Where nothing closes it, one more is open everywhere. -/
theorem crest_succ_of_eq_self (hcounts : visibleFrom depth cs = cs) :
    crest (depth + 1) cs = crest depth cs + 1 := by
  fun_induction visibleFrom depth cs with
  | case1 depth => rfl
  | case2 depth rest ih => simpa using ih (List.cons.inj hcounts).2
  | case3 rest => cases hcounts
  | case4 rest _ depth ih =>
      rw [crest_close_succ, crest_close_succ, ih (List.cons.inj hcounts).2]
      omega
  | case5 depth c rest hopen hclose ih =>
      rw [crest_cons _ _ hopen hclose, crest_cons _ _ hopen hclose]
      exact ih (List.cons.inj hcounts).2

theorem nesting_cons (rest : List Char) (hopen : c ≠ '(') (hclose : c ≠ ')') :
    nesting (c :: rest) = nesting rest :=
  crest_cons 0 rest hopen hclose

/-- A group is nested one deeper than its content. -/
theorem nesting_open (hclosed : (visible rest).length < rest.length) :
    nesting ('(' :: rest) =
      max (nesting rest + 1) (nesting (rest.drop ((visible rest).length + 1))) := by
  rw [nesting, crest_open]
  exact crest_succ hclosed

theorem nesting_open_unclosed (hunclosed : ¬ (visible rest).length < rest.length) :
    nesting ('(' :: rest) = nesting rest + 1 := by
  rw [nesting, crest_open]
  exact crest_succ_of_eq_self (visible_eq_self_of_not_closed hunclosed)

/-- What follows a parenthesis is nested less deep than the parenthesis with it. -/
theorem nesting_succ_le (rest : List Char) : nesting rest + 1 ≤ nesting ('(' :: rest) := by
  by_cases hclosed : (visible rest).length < rest.length
  · rw [nesting_open hclosed]
    exact Nat.le_max_left _ _
  · exact Nat.le_of_eq (nesting_open_unclosed hclosed).symm

/-- Of a balanced stretch and what follows it, the deeper one says how deep they are
nested. -/
theorem Balanced.crest_append {cs : List Char} (hbalanced : Balanced cs) (depth : Nat)
    (rest : List Char) : crest depth (cs ++ rest) = max (crest depth cs) (crest depth rest) := by
  induction hbalanced generalizing depth rest with
  | nil => exact (Nat.max_eq_right (le_crest depth rest)).symm
  | plain hopen hclose _ ih =>
      rw [List.cons_append, crest_cons _ _ hopen hclose, crest_cons _ _ hopen hclose, ih]
  | @nested inner others _ _ ihinner ihothers =>
      have hrest := le_crest depth rest
      have hothers := le_crest depth others
      simp only [List.cons_append, List.append_assoc, crest_open, ihinner, crest_close_succ,
        ihothers]
      omega

end Crest

section Counted

variable {depth : Nat} {cs : List Char}

@[simp] theorem countedFrom_close_zero (rest : List Char) : countedFrom 0 (')' :: rest) = [] := by
  simp [countedFrom]

@[simp] theorem countedFrom_close_succ (depth : Nat) (rest : List Char) :
    countedFrom (depth + 1) (')' :: rest) = ')' :: countedFrom depth rest := by
  simp [countedFrom]

theorem countedFrom_open (rest : List Char) (hroom : depth + 2 < counterLimit) :
    countedFrom depth ('(' :: rest) = '(' :: countedFrom (depth + 1) rest := by
  simp [countedFrom, hroom]

theorem countedFrom_open_full (rest : List Char) (hfull : counterLimit ≤ depth + 2) :
    countedFrom depth ('(' :: rest) = [] := by
  simp [countedFrom, Nat.not_lt.mpr hfull]

theorem countedFrom_cons {c : Char} (depth : Nat) (rest : List Char) (hopen : c ≠ '(')
    (hclose : c ≠ ')') : countedFrom depth (c :: rest) = c :: countedFrom depth rest := by
  simp [countedFrom, hopen, hclose]

theorem countedFrom_isPrefix (depth : Nat) (cs : List Char) : countedFrom depth cs <+: cs := by
  fun_induction countedFrom depth cs <;> simp_all

/-- What is passed over counts in full. -/
theorem visibleFrom_countedFrom (depth : Nat) (cs : List Char) :
    visibleFrom depth (countedFrom depth cs) = countedFrom depth cs := by
  fun_induction countedFrom depth cs <;> simp_all [visibleFrom]

/-- A parenthesis counts together with what is passed over behind it. -/
theorem countedFrom_isPrefix_visibleFrom (depth : Nat) (cs : List Char) :
    countedFrom depth cs <+: visibleFrom (depth + 1) cs := by
  fun_induction countedFrom depth cs <;> simp_all [visibleFrom]

/-- Behind the place where the count ends nothing matters. -/
theorem countedFrom_append {front : List Char} (back : List Char)
    (hends : (countedFrom depth front).length < front.length) :
    countedFrom depth (front ++ back) = countedFrom depth front := by
  fun_induction countedFrom depth front <;> simp_all [countedFrom]

@[simp] theorem openAfter_open (n : Nat) : openAfter (Int32.ofNat n) '(' = Int32.ofNat (n + 1) :=
  Counter.ofNat_add_one n

@[simp] theorem openAfter_close (n : Nat) :
    openAfter (Int32.ofNat (n + 1)) ')' = Int32.ofNat n :=
  Counter.ofNat_succ_sub_one n

theorem openAfter_of_ne {c : Char} (word : Int32) (hopen : c ≠ '(') (hclose : c ≠ ')') :
    openAfter word c = word := by
  simp [openAfter, hopen, hclose]

/-- **One step of the search.**  Either the word is still positive behind a character, and
then it is the depth there; or nothing more is passed over. -/
theorem openAfter_cases (c : Char) (hdepth : depth + 1 < counterLimit) :
    (∃ deeper, deeper + 1 < counterLimit ∧
      openAfter (Int32.ofNat (depth + 1)) c = Int32.ofNat (deeper + 1) ∧
      ∀ rest, countedFrom depth (c :: rest) = c :: countedFrom deeper rest) ∨
    ¬ 0 < openAfter (Int32.ofNat (depth + 1)) c ∧ ∀ rest, countedFrom depth (c :: rest) = [] := by
  by_cases hopen : c = '('
  · subst hopen
    by_cases hroom : depth + 2 < counterLimit
    · exact .inl ⟨depth + 1, hroom, openAfter_open _, fun rest => countedFrom_open rest hroom⟩
    · have hlimit : depth + 1 + 1 = counterLimit := by omega
      refine .inr ⟨?_, fun rest => countedFrom_open_full rest (Nat.not_lt.mp hroom)⟩
      rw [openAfter_open, hlimit]
      exact Counter.not_pos_ofNat_counterLimit
  · by_cases hclose : c = ')'
    · subst hclose
      cases depth with
      | zero => exact .inr ⟨by decide, countedFrom_close_zero⟩
      | succ depth =>
          exact .inl ⟨depth, by omega, openAfter_close _, countedFrom_close_succ depth⟩
    · exact .inl ⟨depth, hdepth, openAfter_of_ne _ hopen hclose,
        fun rest => countedFrom_cons depth rest hopen hclose⟩

/-- While a word can count the open parentheses, what counts is passed over. -/
theorem countedFrom_eq_visibleFrom (hshallow : crest depth cs + 1 < counterLimit) :
    countedFrom depth cs = visibleFrom depth cs := by
  fun_induction visibleFrom depth cs with
  | case1 depth => rfl
  | case2 depth rest ih =>
      rw [crest_open] at hshallow
      have hdepth := le_crest (depth + 1) rest
      rw [countedFrom_open rest (by omega), ih hshallow]
  | case3 rest => exact countedFrom_close_zero rest
  | case4 rest _ depth ih =>
      rw [crest_close_succ] at hshallow
      rw [countedFrom_close_succ, ih (by omega)]
  | case5 depth c rest hopen hclose ih =>
      rw [crest_cons _ _ hopen hclose] at hshallow
      rw [countedFrom_cons _ _ hopen hclose, ih hshallow]

/-- What is passed over can be counted. -/
theorem crest_countedFrom (hdepth : depth + 1 < counterLimit) :
    crest depth (countedFrom depth cs) + 1 < counterLimit := by
  fun_induction countedFrom depth cs with
  | case1 depth => exact hdepth
  | case2 depth rest hroom ih =>
      rw [crest_open]
      exact ih hroom
  | case3 depth rest hfull => exact hdepth
  | case4 rest => exact hdepth
  | case5 rest _ depth ih =>
      have hrest := ih (by omega)
      rw [crest_close_succ]
      omega
  | case6 depth c rest hopen hclose ih =>
      rw [crest_cons _ _ hopen hclose]
      exact ih hdepth

/-- **Where a word cannot count the open parentheses**, the count ends at one of them.  In what
has been passed over as many have been opened as a word cannot count any more. -/
theorem countedFrom_of_overfull (hdepth : depth + 1 < counterLimit)
    (hfull : counterLimit ≤ crest depth cs + 1) :
    (∃ back, cs = countedFrom depth cs ++ '(' :: back) ∧
      (countedFrom depth cs).count '(' + depth + 2 =
        counterLimit + (countedFrom depth cs).count ')' := by
  fun_induction countedFrom depth cs with
  | case1 depth =>
      rw [crest_nil] at hfull
      omega
  | case2 depth rest hroom ih =>
      rw [crest_open] at hfull
      obtain ⟨⟨back, hback⟩, hcount⟩ := ih hroom hfull
      refine ⟨⟨back, congrArg ('(' :: ·) hback⟩, ?_⟩
      rw [List.count_cons_self, count_closer_cons_open]
      omega
  | case3 depth rest hroom => exact ⟨⟨rest, rfl⟩, by simp; omega⟩
  | case4 rest =>
      rw [crest_close_zero] at hfull
      omega
  | case5 rest _ depth ih =>
      rw [crest_close_succ] at hfull
      obtain ⟨⟨back, hback⟩, hcount⟩ := ih (by omega) (by omega)
      refine ⟨⟨back, congrArg (')' :: ·) hback⟩, ?_⟩
      rw [List.count_cons_self, count_open_cons_closer]
      omega
  | case6 depth c rest hopen hclose ih =>
      rw [crest_cons _ _ hopen hclose] at hfull
      obtain ⟨⟨back, hback⟩, hcount⟩ := ih hdepth hfull
      refine ⟨⟨back, congrArg (c :: ·) hback⟩, ?_⟩
      rw [List.count_cons_of_ne hopen, List.count_cons_of_ne hclose]
      exact hcount

theorem counted_isPrefix (cs : List Char) : counted cs <+: cs :=
  countedFrom_isPrefix 0 cs

@[simp] theorem visible_counted (cs : List Char) : visible (counted cs) = counted cs :=
  visibleFrom_countedFrom 0 cs

/-- A parenthesis counts together with what the search for its closer passes over. -/
theorem exists_visible_open_eq (rest : List Char) :
    ∃ back, visible ('(' :: rest) = '(' :: (counted rest ++ back) := by
  obtain ⟨back, hback⟩ := countedFrom_isPrefix_visibleFrom 0 rest
  exact ⟨back, by rw [visible, visibleFrom_open, ← hback]; rfl⟩

theorem counted_append {front : List Char} (back : List Char)
    (hends : (counted front).length < front.length) : counted (front ++ back) = counted front :=
  countedFrom_append back hends

theorem length_counted_append_lt {front : List Char} (back : List Char)
    (hends : (counted front).length < front.length) :
    (counted (front ++ back)).length < (front ++ back).length := by
  rw [counted_append back hends, List.length_append]
  omega

/-- **The content of a parenthesis** is passed over while a word can count what is open. -/
theorem counted_eq_visible (hshallow : nesting cs + 1 < counterLimit) :
    counted cs = visible cs :=
  countedFrom_eq_visibleFrom hshallow

theorem nesting_counted_lt (cs : List Char) : nesting (counted cs) + 1 < counterLimit :=
  crest_countedFrom (by decide)

section Overfull

variable (hfull : counterLimit ≤ nesting cs + 1)

include hfull

theorem exists_counted_append : ∃ back, cs = counted cs ++ '(' :: back :=
  (countedFrom_of_overfull (by decide) hfull).1

theorem length_counted_lt : (counted cs).length < cs.length := by
  obtain ⟨back, hback⟩ := exists_counted_append hfull
  have hlength := congrArg List.length hback
  rw [List.length_append, List.length_cons] at hlength
  omega

/-- **Too deep a parenthesis is cut short**: not all that has been opened is closed. -/
theorem not_balanced_counted : ¬ Balanced (counted cs) := by
  intro hbalanced
  have hcount : (counted cs).count '(' + 0 + 2 = counterLimit + (counted cs).count ')' :=
    (countedFrom_of_overfull (by decide) hfull).2
  rw [hbalanced.count_eq, counterLimit] at hcount
  omega

end Overfull

/-- A row of opening parentheses counts in full. -/
theorem visible_replicate_open (n : Nat) :
    visible (List.replicate n '(') = List.replicate n '(' := by
  induction n with
  | zero => rfl
  | succ n ih =>
      rw [List.replicate_succ, visible_open_unclosed]
      rw [ih]
      exact Nat.lt_irrefl _

/-- A row of opening parentheses is passed over up to the one that is too many. -/
theorem countedFrom_replicate_open {n : Nat} (hn : n + depth + 2 = counterLimit)
    (back : List Char) :
    countedFrom depth (List.replicate n '(' ++ '(' :: back) = List.replicate n '(' := by
  induction n generalizing depth with
  | zero => exact countedFrom_open_full back (by omega)
  | succ n ih =>
      rw [List.replicate_succ, List.cons_append, countedFrom_open _ (by omega), ih (by omega)]

theorem counted_replicate_open {n : Nat} (hn : n + 2 = counterLimit) (back : List Char) :
    counted (List.replicate n '(' ++ '(' :: back) = List.replicate n '(' := by
  apply countedFrom_replicate_open
  exact hn

end Counted

end PatternAutomata
