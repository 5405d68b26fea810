import PatternAutomata.Pattern.Reading
import PatternAutomata.Proofs.FirstCloser

/-!
# Reading without guards, and what is kept at its moments

The cursor of a reading is kept in its scope, and every scope in the pattern, by what the
reading is defined with.  Here is a reading that knows nothing of that (`Unguarded.read`):
cursor and scope are any numbers, a character or a rest of the pattern that is looked for
may not be there, and only a number of moments that is set beforehand makes it end.  The
count of open parentheses may be checked as well: then a reading whose word overflows has
no result.

What is kept at every moment is `Moment.Held`: the cursor stands in its scope and the scope in
the pattern.  While a word can count the parentheses that are open in the pattern,
`Moment.Paired` is kept as well: outside all groups the scope is the whole pattern and the
parentheses in front of the cursor pair up, and in a group those from the cursor to the end of
the scope do.  Each is kept by the three kinds of steps there are: to the next character, into a
group, and out of one.  `Passed` puts the moments of a whole walk together.
-/

namespace PatternAutomata

/-- A moment of a reading: how many groups are open around the cursor, where the cursor
stands, and where the current scope ends. -/
structure Moment where
  depth : Nat
  pos : Nat
  stop : Nat
  deriving DecidableEq, Repr

/-- A reading together with the moments it has gone through, in their order. -/
structure Walk extends Reading where
  moments : List Moment

namespace Unguarded

/-- The count of open parentheses behind a character, which may be checked for overflow. -/
def openAfter? (checked : Bool) (depth : Int32) (c : Char) : Option Int32 :=
  if checked = true ∧ (c = '(' ∧ depth = Int32.maxValue ∨ c = ')' ∧ depth = Int32.minValue) then
    none
  else
    some (openAfter depth c)

/-- The search for a closer with an index that may be any number.  It has no result if it
looks for a character where there is none, or if a checked count overflows. -/
def findCloser? (checked : Bool) (cs : Array Char) (stop pos : Nat) (depth : Int32) :
    Option (Option Nat) :=
  if pos < stop then
    match cs[pos]? with
    | none => none
    | some c =>
      match openAfter? checked depth c with
      | none => none
      | some deeper =>
        if 0 < deeper then
          findCloser? checked cs stop (pos + 1) deeper
        else
          some (some pos)
  else
    some none
  termination_by stop - pos

/-- The rest of a pattern from an index on, if the index is not beyond its end. -/
def remainder? (cs : Array Char) (pos : Nat) : Option String :=
  if pos ≤ cs.size then some (String.ofList (cs.toList.drop pos)) else none

/-- Reads on from a moment, which may be any three numbers.  There is no result if a
character or a rest of the pattern is looked for where there is none, if a checked count
overflows, or if more moments follow from each other than are allowed. -/
def read (checked : Bool) (cs : Array Char) : Nat → Moment → Option Tree → Option Walk
  | 0, _, _ => none
  | allowed + 1, here, branch =>
    if here.pos < here.stop then do
      let c ← cs[here.pos]?
      if c = '(' then
        match ← findCloser? checked cs here.stop (here.pos + 1) 1 with
        | none => some ⟨⟨[], .error ⟨.unmatchedParenthesis, here.pos⟩⟩, [here]⟩
        | some close =>
          let content ← read checked cs allowed ⟨here.depth + 1, here.pos + 1, close⟩ none
          match content.outcome with
          | .error defect => some ⟨⟨content.strays, .error defect⟩, here :: content.moments⟩
          | .ok (none, _) =>
            some ⟨⟨content.strays, .error ⟨.emptyExpression, here.pos⟩⟩, here :: content.moments⟩
          | .ok (some inner, _) =>
            let later ← read checked cs allowed { here with pos := close + 1 }
              (some (Tree.append branch (.group inner)))
            some ⟨⟨content.strays ++ later.strays, later.outcome⟩,
              here :: (content.moments ++ later.moments)⟩
      else if c = ')' then
        let ignored ← remainder? cs (here.pos + 1)
        some ⟨⟨[⟨here.pos, ignored⟩], .ok (branch, here.stop)⟩, [here]⟩
      else if c = '|' then
        let right ← read checked cs allowed { here with pos := here.pos + 1 } none
        match branch, right.outcome with
        | _, .error defect => some ⟨⟨right.strays, .error defect⟩, here :: right.moments⟩
        | some left, .ok (some tree, next) =>
          some ⟨⟨right.strays, .ok (some (.union left tree), next)⟩, here :: right.moments⟩
        | _, .ok _ =>
          some ⟨⟨right.strays, .error ⟨.emptyExpression, here.pos⟩⟩, here :: right.moments⟩
      else if c = '*' then
        match Tree.repeatLast branch with
        | none => some ⟨⟨[], .error ⟨.nothingToRepeat, here.pos⟩⟩, [here]⟩
        | some repeated =>
          let later ← read checked cs allowed { here with pos := here.pos + 1 } (some repeated)
          some { later with moments := here :: later.moments }
      else
        let later ← read checked cs allowed { here with pos := here.pos + 1 }
          (some (Tree.append branch (.char c)))
        some { later with moments := here :: later.moments }
    else
      some ⟨⟨[], .ok (branch, here.pos)⟩, [here]⟩

/-- A count overflows only where it is checked and stops being positive at a `(`. -/
theorem openAfter?_eq {checked : Bool} {depth : Int32} (c : Char)
    (hpos : checked = true → 0 < depth) :
    openAfter? checked depth c =
      if checked = true ∧ c = '(' ∧ ¬ 0 < openAfter depth c then none
      else some (openAfter depth c) := by
  cases checked with
  | false => simp [openAfter?]
  | true =>
      have hdepth := hpos rfl
      have hleast : depth ≠ Int32.minValue := by
        rintro rfl
        exact absurd hdepth (by decide)
      by_cases hopen : c = '('
      · subst hopen
        have hnext : openAfter depth '(' = depth + 1 := rfl
        simp [openAfter?, hnext, Counter.add_one_pos_iff hdepth]
      · simp [openAfter?, hopen, hleast]

/-- **In the pattern the search finds what is found** with the index kept in its scope.  A
checked one has no result where the other ends at a `(`. -/
theorem findCloser?_eq {checked : Bool} {cs : Array Char} (stop : Nat) (hstop : stop ≤ cs.size)
    (opener pos : Nat) (hafter : opener < pos) {depth : Int32}
    (hpos : checked = true → 0 < depth) :
    findCloser? checked cs stop pos depth =
      match closer? cs stop hstop opener pos hafter depth with
      | none => some none
      | some close =>
        if checked = true ∧ cs[close.val]? = some '(' then none else some (some close.val) := by
  fun_induction closer? cs stop hstop opener pos hafter depth with
  | case1 pos hafter depth h hmore ih =>
      have hinside := Nat.lt_of_lt_of_le h hstop
      rw [findCloser?.eq_def, ← ih fun _ => hmore]
      simp [h, hinside, openAfter?_eq _ hpos, hmore]
  | case2 pos hafter depth h hends =>
      have hinside := Nat.lt_of_lt_of_le h hstop
      rw [findCloser?.eq_def]
      by_cases hfails : checked = true ∧ cs[pos] = '('
      · have hword : openAfter? checked depth cs[pos] = none := by
          rw [openAfter?_eq _ hpos, if_pos ⟨hfails.1, hfails.2, hends⟩]
        simp only [h, hinside, Array.getElem?_eq_getElem, hword, ↓reduceIte]
        exact (if_pos (by simpa [hinside] using hfails)).symm
      · have hword : openAfter? checked depth cs[pos] = some (openAfter depth cs[pos]) := by
          rw [openAfter?_eq _ hpos, if_neg fun h => hfails ⟨h.1, h.2.1⟩]
        simp [h, hinside, hword, hends, hfails]
  | case3 pos hafter depth h =>
      rw [findCloser?.eq_def]
      simp [h]

section Search

variable {checked : Bool} {cs : Array Char} {stop opener : Nat} {hstop : stop ≤ cs.size}

theorem findCloser?_of_none
    (hnone : closer? cs stop hstop opener (opener + 1) (Nat.lt_succ_self _) 1 = none) :
    findCloser? checked cs stop (opener + 1) 1 = some none := by
  rw [findCloser?_eq stop hstop opener _ (Nat.lt_succ_self _) (fun _ => by decide), hnone]

theorem findCloser?_of_some {found : { close : Nat // opener < close ∧ close < stop }}
    (hfound : closer? cs stop hstop opener (opener + 1) (Nat.lt_succ_self _) 1 = some found)
    (hcloses : checked = true → cs[found.val]? = some ')') :
    findCloser? checked cs stop (opener + 1) 1 = some (some found.val) := by
  rw [findCloser?_eq stop hstop opener _ (Nat.lt_succ_self _) (fun _ => by decide), hfound]
  refine if_neg ?_
  rintro ⟨hchecked, hopen⟩
  rw [hcloses hchecked] at hopen
  cases hopen

end Search

end Unguarded

namespace Moment

/-- The cursor meets a `)` that closes nothing in its scope. -/
def MeetsStray (cs : Array Char) (m : Moment) : Prop :=
  m.pos < m.stop ∧ cs[m.pos]? = some ')'

/-- The cursor meets a `(` that nothing in its scope closes. -/
def LacksCloser (cs : Array Char) (m : Moment) : Prop :=
  m.pos < m.stop ∧ cs[m.pos]? = some '(' ∧
    Unguarded.findCloser? false cs m.stop (m.pos + 1) 1 = some none

/-- What is kept of the parentheses at every moment, while a word can count them. -/
structure Paired (cs : Array Char) (m : Moment) : Prop where
  shallow : nesting (stretch cs m.pos m.stop) < counterLimit
  outside : m.depth = 0 → m.stop = cs.size ∧ Balanced (stretch cs 0 m.pos)
  inside : 0 < m.depth → Balanced (stretch cs m.pos m.stop)

/-- What is kept of the cursor and its scope at every moment. -/
structure Held (cs : Array Char) (m : Moment) : Prop where
  pos_le : m.pos ≤ m.stop
  stop_le : m.stop ≤ cs.size
  paired : nesting cs.toList < counterLimit → m.Paired cs

namespace Paired

variable {cs : Array Char} {depth pos stop : Nat}

/-- The parentheses behind one are nested less deep than it is. -/
theorem shallow_behind (h : Paired cs ⟨depth, pos, stop⟩) (hstop : stop ≤ cs.size)
    (hpos : pos < stop) (hinside : pos < cs.size) (hopen : cs[pos] = '(') :
    nesting (stretch cs (pos + 1) stop) + 1 < counterLimit := by
  have hshallow := h.shallow
  rw [stretch_eq_cons hstop hpos, hopen] at hshallow
  exact Nat.lt_of_le_of_lt (nesting_succ_le _) hshallow

theorem next (h : Paired cs ⟨depth, pos, stop⟩) (hstop : stop ≤ cs.size) (hpos : pos < stop)
    (hinside : pos < cs.size) (hopen : cs[pos] ≠ '(') (hclose : cs[pos] ≠ ')') :
    Paired cs ⟨depth, pos + 1, stop⟩ where
  shallow := by
    have hshallow := h.shallow
    rwa [stretch_eq_cons hstop hpos, nesting_cons _ hopen hclose] at hshallow
  outside hdepth := by
    obtain ⟨hends, hfront⟩ := h.outside hdepth
    refine ⟨hends, ?_⟩
    have hhere := stretch_eq_cons hinside (Nat.lt_succ_self pos)
    rw [stretch_eq_nil (Nat.le_refl _)] at hhere
    dsimp only at hfront ⊢
    rw [← stretch_append (Nat.zero_le pos) (Nat.le_succ pos), hhere]
    exact hfront.append (.plain hopen hclose .nil)
  inside hdepth := by
    have hrest := h.inside hdepth
    rw [stretch_eq_cons hstop hpos] at hrest
    exact hrest.behind_plain hopen

section Group

variable {hstop : stop ≤ cs.size} {found : { close : Nat // pos < close ∧ close < stop }}
  (h : Paired cs ⟨depth, pos, stop⟩) (hpos : pos < stop) (hinside : pos < cs.size)
  (hopen : cs[pos] = '(')
  (hfound : closer? cs stop hstop pos (pos + 1) (Nat.lt_succ_self _) 1 = some found)

include h hpos hopen hfound

theorem enter : Paired cs ⟨depth + 1, pos + 1, found.val⟩ where
  shallow := by
    have hshallow := h.shallow_behind hstop hpos hinside hopen
    dsimp only
    rw [(stretch_content hshallow hfound).2, nesting_visible]
    exact Nat.lt_of_succ_lt hshallow
  outside hdepth := by cases hdepth
  inside _ := balanced_content (h.shallow_behind hstop hpos hinside hopen) hfound

theorem leave : Paired cs ⟨depth, found.val + 1, stop⟩ where
  shallow := by
    have hbehind := h.shallow_behind hstop hpos hinside hopen
    have hclosed := closed_of_closer? hbehind hfound
    have hshallow := h.shallow
    dsimp only at hshallow ⊢
    rw [stretch_eq_cons hstop hpos, hopen, nesting_open hclosed,
      drop_stretch_closer hbehind hfound] at hshallow
    exact Nat.lt_of_le_of_lt (Nat.le_max_right _ _) hshallow
  outside hdepth := by
    obtain ⟨hends, hfront⟩ := h.outside hdepth
    refine ⟨hends, ?_⟩
    have hbehind : pos ≤ found.val + 1 := Nat.le_succ_of_le (Nat.le_of_lt found.property.1)
    have hshallow := h.shallow_behind hstop hpos hinside hopen
    dsimp only at hfront ⊢
    rw [← stretch_append (Nat.zero_le pos) hbehind,
      stretch_group hshallow hfound hinside hopen]
    exact hfront.append (.nested (balanced_content hshallow hfound) .nil)
  inside hdepth := by
    have hwhole := h.inside hdepth
    dsimp only at hwhole ⊢
    rw [stretch_eq_cons hstop hpos, hopen] at hwhole
    obtain ⟨-, hrest⟩ := hwhole.behind_group
    rwa [drop_stretch_closer (h.shallow_behind hstop hpos hinside hopen) hfound] at hrest

end Group

/-- **In a group** no `)` is met that closes nothing, and no group lacks its closer. -/
theorem depth_eq_zero {m : Moment} (h : m.Paired cs) (hstop : m.stop ≤ cs.size)
    (hm : m.MeetsStray cs ∨ m.LacksCloser cs) : m.depth = 0 := by
  refine Decidable.byContradiction fun hdepth => ?_
  have hrest := h.inside (Nat.pos_of_ne_zero hdepth)
  rcases hm with ⟨hpos, hclose⟩ | ⟨hpos, hopen, hnone⟩
  · obtain ⟨_, hhere⟩ := Array.getElem?_eq_some_iff.mp hclose
    rw [stretch_eq_cons hstop hpos, hhere] at hrest
    exact not_balanced_closer _ hrest
  · obtain ⟨hinside, hhere⟩ := Array.getElem?_eq_some_iff.mp hopen
    have hshallow := h.shallow_behind hstop hpos hinside hhere
    rw [stretch_eq_cons hstop hpos, hhere] at hrest
    cases hfound : closer? cs m.stop hstop m.pos (m.pos + 1) (Nat.lt_succ_self _) 1 with
    | none =>
        have hcounts := counts_of_closer?_eq_none hshallow hfound
        exact hrest.visible_ne_of_open hcounts
    | some found =>
        rw [Unguarded.findCloser?_of_some hfound (fun hchecked => by cases hchecked)] at hnone
        cases hnone

end Paired

namespace Held

variable {cs : Array Char} {depth pos stop : Nat}

/-- The beginning of a pattern. -/
theorem begin (cs : Array Char) : Held cs ⟨0, 0, cs.size⟩ where
  pos_le := Nat.zero_le _
  stop_le := Nat.le_refl _
  paired hshallow :=
    { shallow := by
        have hall : stretch cs 0 cs.size = cs.toList := by
          rw [stretch, List.drop_zero, ← Array.length_toList, List.take_length]
        rwa [hall]
      outside := fun _ => ⟨rfl, .nil⟩
      inside := fun hdepth => absurd hdepth (Nat.lt_irrefl 0) }

/-- **A character that is no parenthesis** is passed over. -/
theorem next (h : Held cs ⟨depth, pos, stop⟩) (hpos : pos < stop) (hinside : pos < cs.size)
    (hopen : cs[pos] ≠ '(') (hclose : cs[pos] ≠ ')') : Held cs ⟨depth, pos + 1, stop⟩ where
  pos_le := hpos
  stop_le := h.stop_le
  paired hshallow := (h.paired hshallow).next h.stop_le hpos hinside hopen hclose

section Group

variable {hstop : stop ≤ cs.size} {found : { close : Nat // pos < close ∧ close < stop }}
  (h : Held cs ⟨depth, pos, stop⟩) (hpos : pos < stop) (hinside : pos < cs.size)
  (hopen : cs[pos] = '(')
  (hfound : closer? cs stop hstop pos (pos + 1) (Nat.lt_succ_self _) 1 = some found)

include h hpos hopen hfound

/-- **The content of a group** is a scope of its own. -/
theorem enter : Held cs ⟨depth + 1, pos + 1, found.val⟩ where
  pos_le := found.property.1
  stop_le := Nat.le_trans (Nat.le_of_lt found.property.2) hstop
  paired hshallow := (h.paired hshallow).enter hpos hinside hopen hfound

/-- **A group** is passed over up to its closer. -/
theorem leave : Held cs ⟨depth, found.val + 1, stop⟩ where
  pos_le := found.property.2
  stop_le := h.stop_le
  paired hshallow := (h.paired hshallow).leave hpos hinside hopen hfound

/-- A checked count does not overflow on the way to the closer. -/
theorem findCloser?_eq {checked : Bool}
    (hshallow : checked = true → nesting cs.toList < counterLimit) :
    Unguarded.findCloser? checked cs stop (pos + 1) 1 = some (some found.val) := by
  refine Unguarded.findCloser?_of_some hfound fun hchecked => ?_
  have hpaired := h.paired (hshallow hchecked)
  exact getElem?_closer (hpaired.shallow_behind hstop hpos hinside hopen) hfound

end Group

end Held

end Moment

/-- What is kept of the moments of a walk from `low` up to `high`: the cursor is held at all of
them, stands between these two, and goes forward from each to the next. -/
structure Passed (cs : Array Char) (low high : Nat) (moments : List Moment) : Prop where
  held : ∀ m ∈ moments, m.Held cs
  between : ∀ m ∈ moments, low ≤ m.pos ∧ m.pos ≤ high
  ascending : moments.Pairwise fun m later => m.pos < later.pos

namespace Passed

variable {cs : Array Char} {m : Moment} {low mid high : Nat} {moments more : List Moment}

theorem single (h : m.Held cs) : Passed cs m.pos m.stop [m] where
  held := by simpa using h
  between := by simpa using h.pos_le
  ascending := List.pairwise_singleton _ _

/-- One moment before a walk that does not leave its scope. -/
theorem cons (h : m.Held cs) (hrest : Passed cs (m.pos + 1) high moments) (hhigh : high ≤ m.stop) :
    Passed cs m.pos m.stop (m :: moments) where
  held := List.forall_mem_cons.mpr ⟨h, hrest.held⟩
  between := by
    refine List.forall_mem_cons.mpr ⟨⟨Nat.le_refl _, h.pos_le⟩, ?_⟩
    intro later hlater
    have hbetween := hrest.between later hlater
    omega
  ascending :=
    List.pairwise_cons.mpr ⟨fun later hlater => (hrest.between later hlater).1, hrest.ascending⟩

/-- A walk up to the end of a scope, and one behind that. -/
theorem append (hfront : Passed cs low mid moments) (hback : Passed cs (mid + 1) high more)
    (hlow : low ≤ mid) (hhigh : mid ≤ high) : Passed cs low high (moments ++ more) where
  held := List.forall_mem_append.mpr ⟨hfront.held, hback.held⟩
  between := by
    refine List.forall_mem_append.mpr ⟨?_, ?_⟩
    · intro m hm
      have hbetween := hfront.between m hm
      omega
    · intro m hm
      have hbetween := hback.between m hm
      omega
  ascending := by
    refine List.pairwise_append.mpr ⟨hfront.ascending, hback.ascending, ?_⟩
    intro m hm later hlater
    exact Nat.lt_of_le_of_lt (hfront.between m hm).2 (hback.between later hlater).1

end Passed

end PatternAutomata
