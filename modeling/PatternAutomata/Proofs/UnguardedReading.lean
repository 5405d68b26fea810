import PatternAutomata.Proofs.HeldMoments
import PatternAutomata.Proofs.StrayClosers

/-!
# A reading stays in its scopes

A reading without guards comes to the same as the one in scopes (`Unguarded.reads_within`).
While a word can count the parentheses that are open in the pattern no count overflows, and in a
group no `)` is met that closes nothing, and no group lacks its closer
(`Moment.Paired.depth_eq_zero`), which is seen from what its content is read as, too
(`reading_content`).

Where a word cannot count the parentheses, the search ends at one that opens a group, and
the content that is cut short has groups that lack their closers
(`deep_scope_lacks_closers`).
-/

namespace PatternAutomata

namespace Unguarded

/-- From a moment on the reading without guards has a result, and all its moments are held, if
one moment more is allowed than there are characters left.  If its counts are checked, a word
has to be enough for the parentheses of the pattern. -/
def Reads (cs : Array Char) (m : Moment) (branch : Option Tree) (reading : Reading) : Prop :=
  ∃ moments, Passed cs m.pos m.stop moments ∧
    ∀ checked allowed, (checked = true → nesting cs.toList < counterLimit) →
      m.stop - m.pos < allowed → read checked cs allowed m branch = some ⟨reading, moments⟩

namespace Reads

variable {cs : Array Char} {m next : Moment} {branch found : Option Tree}
  {reading content later : Reading}

/-- A last moment. -/
theorem of_here (h : m.Held cs)
    (hread : ∀ checked allowed, read checked cs (allowed + 1) m branch = some ⟨reading, [m]⟩) :
    Reads cs m branch reading := by
  refine ⟨[m], Passed.single h, ?_⟩
  intro checked allowed _ hallowed
  obtain ⟨allowed, rfl⟩ := Nat.exists_eq_succ_of_ne_zero (Nat.ne_zero_of_lt hallowed)
  exact hread checked allowed

/-- A moment that another one follows, in the same scope or in a group. -/
theorem of_next (hnext : Reads cs next found later) (h : m.Held cs) (hm : m.pos < m.stop)
    (hpos : next.pos = m.pos + 1) (hstop : next.stop ≤ m.stop)
    (hread : ∀ checked allowed moments, (checked = true → nesting cs.toList < counterLimit) →
      read checked cs allowed next found = some ⟨later, moments⟩ →
      read checked cs (allowed + 1) m branch = some ⟨reading, m :: moments⟩) :
    Reads cs m branch reading := by
  obtain ⟨moments, hpassed, hlater⟩ := hnext
  rw [hpos] at hpassed
  refine ⟨m :: moments, Passed.cons h hpassed hstop, ?_⟩
  intro checked allowed hshallow hallowed
  obtain ⟨allowed, rfl⟩ := Nat.exists_eq_succ_of_ne_zero (Nat.ne_zero_of_lt hallowed)
  exact hread checked allowed moments hshallow (hlater checked allowed hshallow (by omega))

/-- A moment that a whole group follows, and what stands behind the group. -/
theorem of_group {depth pos close stop : Nat}
    (hcontent : Reads cs ⟨depth + 1, pos + 1, close⟩ none content)
    (hlater : Reads cs ⟨depth, close + 1, stop⟩ found later) (h : Moment.Held cs ⟨depth, pos, stop⟩)
    (hbetween : pos < close ∧ close < stop)
    (hread : ∀ checked allowed front back, (checked = true → nesting cs.toList < counterLimit) →
      read checked cs allowed ⟨depth + 1, pos + 1, close⟩ none = some ⟨content, front⟩ →
      read checked cs allowed ⟨depth, close + 1, stop⟩ found = some ⟨later, back⟩ →
      read checked cs (allowed + 1) ⟨depth, pos, stop⟩ branch =
        some ⟨reading, ⟨depth, pos, stop⟩ :: (front ++ back)⟩) :
    Reads cs ⟨depth, pos, stop⟩ branch reading := by
  obtain ⟨front, hfront, hinner⟩ := hcontent
  obtain ⟨back, hback, houter⟩ := hlater
  have hpassed := hfront.append hback hbetween.1 (Nat.le_of_lt hbetween.2)
  refine ⟨⟨depth, pos, stop⟩ :: (front ++ back), Passed.cons h hpassed (Nat.le_refl _), ?_⟩
  intro checked allowed hshallow hallowed
  obtain ⟨allowed, rfl⟩ := Nat.exists_eq_succ_of_ne_zero (Nat.ne_zero_of_lt hallowed)
  dsimp only at hinner houter hallowed
  exact hread checked allowed front back hshallow (hinner checked allowed hshallow (by omega))
    (houter checked allowed hshallow (by omega))

end Reads

/-- **Where the cursor is held, reading without guards is reading with them.** -/
theorem reads_within {cs : Array Char} {stop : Nat} (hstop : stop ≤ cs.size) (pos : Nat)
    (branch : Option Tree) (depth : Nat) (h : Moment.Held cs ⟨depth, pos, stop⟩) :
    Reads cs ⟨depth, pos, stop⟩ branch (Reading.within cs stop hstop pos branch) := by
  -- the depth is free, for the content of a group is read one deeper
  fun_induction Reading.within cs stop hstop pos branch generalizing depth with
  | case1 stop hstop pos branch hpos hopen hnone =>
      refine Reads.of_here h fun checked allowed => ?_
      simp [read, hpos, Nat.lt_of_lt_of_le hpos hstop, hopen, findCloser?_of_none hnone]
  | case2 stop hstop pos branch hpos hopen close hbetween hfound strays _ hinner ih
  | case3 stop hstop pos branch hpos hopen close hbetween hfound strays _ hinner ih =>
      have hinside := Nat.lt_of_lt_of_le hpos hstop
      have hcontent := ih (depth + 1) (h.enter hpos hinside hopen hfound)
      refine hcontent.of_next h hpos rfl (Nat.le_of_lt hbetween.2)
        fun checked allowed moments hshallow hread => ?_
      have hsearch := h.findCloser?_eq hpos hinside hopen hfound hshallow
      simp [read, hpos, hinside, hopen, hsearch, hread, hinner]
  | case4 stop hstop pos branch hpos hopen close hbetween hfound strays inner _ hinner later
      outcome hlater ihcontent ihlater =>
      have hinside := Nat.lt_of_lt_of_le hpos hstop
      have hcontent := ihcontent (depth + 1) (h.enter hpos hinside hopen hfound)
      have hbehind := ihlater depth (h.leave hpos hinside hopen hfound)
      refine hcontent.of_group hbehind h hbetween
        fun checked allowed front back hshallow hfront hback => ?_
      have hsearch := h.findCloser?_eq hpos hinside hopen hfound hshallow
      simp [read, hpos, hinside, hopen, hsearch, hfront, hback, hinner, hlater]
  | case5 stop hstop pos branch hpos hopen hclose =>
      have hinside := Nat.lt_of_lt_of_le hpos hstop
      refine Reads.of_here h fun checked allowed => ?_
      simp [read, remainder?, hpos, hinside, Nat.succ_le_of_lt hinside, hclose]
  | case6 stop hstop pos branch hpos hopen hclose hbar strays _ hright ih
  | case7 stop hstop pos hpos hopen hclose hbar left strays _ _ hright ih
  | case8 stop hstop pos branch hpos hopen hclose hbar strays _ hright _ ih =>
      have hinside := Nat.lt_of_lt_of_le hpos hstop
      have hnext := ih depth (h.next hpos hinside hopen hclose)
      refine hnext.of_next h hpos rfl (Nat.le_refl _) fun checked allowed moments _ hread => ?_
      simp [read, hpos, hinside, hbar, hread, hright]
  | case9 stop hstop pos branch hpos hopen hclose hbar hstar hnone =>
      refine Reads.of_here h fun checked allowed => ?_
      simp [read, hpos, Nat.lt_of_lt_of_le hpos hstop, hstar, hnone]
  | case10 stop hstop pos branch hpos hopen hclose hbar hstar repeated hrepeated ih =>
      have hinside := Nat.lt_of_lt_of_le hpos hstop
      have hnext := ih depth (h.next hpos hinside hopen hclose)
      refine hnext.of_next h hpos rfl (Nat.le_refl _) fun checked allowed moments _ hread => ?_
      simp [read, hpos, hinside, hstar, hrepeated, hread]
  | case11 stop hstop pos branch hpos hopen hclose hbar hstar ih =>
      have hinside := Nat.lt_of_lt_of_le hpos hstop
      have hnext := ih depth (h.next hpos hinside hopen hclose)
      refine hnext.of_next h hpos rfl (Nat.le_refl _) fun checked allowed moments _ hread => ?_
      simp [read, hpos, hinside, hopen, hclose, hbar, hstar, hread]
  | case12 stop hstop pos branch hpos =>
      refine Reads.of_here h fun checked allowed => ?_
      simp [read, hpos]

end Unguarded

/-- Where the parentheses pair up, none is reported as unmatched. -/
theorem Balanced.flaw_ne_unmatched {w : List Char} {defect : Defect} (hbalanced : Balanced w)
    (herror : (Excerpt.read visible none w).outcome = .error defect) :
    defect.flaw ≠ .unmatchedParenthesis := by
  obtain ⟨shown, hfault, -⟩ := Excerpt.firstFault_of_outcome_error herror
  rw [hbalanced.visible_eq] at hfault
  cases hfault with
  | unclosed hhere hnever =>
      rw [hhere] at hbalanced
      exact absurd hnever hbalanced.visible_ne_behind_open
  | leadingStar | secondStar | emptyGroup | emptyAlternative => exact Flaw.noConfusion

/-- **In the content of a group** no closer is stray and no parenthesis unmatched, wherever
the group stands. -/
theorem reading_content {cs : Array Char} {stop opener : Nat} {hstop : stop ≤ cs.size}
    {found : { close : Nat // opener < close ∧ close < stop }}
    (hshallow : nesting (stretch cs (opener + 1) stop) + 1 < counterLimit)
    (hfound : closer? cs stop hstop opener (opener + 1) (Nat.lt_succ_self _) 1 = some found)
    (hinside : found.val ≤ cs.size) :
    (Reading.within cs found.val hinside (opener + 1) none).strays = [] ∧
      ∀ defect, (Reading.within cs found.val hinside (opener + 1) none).outcome = .error defect →
        defect.flaw ≠ .unmatchedParenthesis := by
  have hbalanced := balanced_content hshallow hfound
  have hcontent : nesting (stretch cs (opener + 1) found.val) < counterLimit := by
    rw [(stretch_content hshallow hfound).2, nesting_visible]
    exact Nat.lt_of_succ_lt hshallow
  rw [Excerpt.within_eq_place cs found.val hinside (opener + 1) none found.property.1,
    Excerpt.read_counted_eq hcontent]
  constructor
  · rw [Excerpt.place, Excerpt.strays_read_of_counts hbalanced.visible_eq]
    rfl
  · intro defect herror
    rw [Excerpt.place] at herror
    cases hread : (Excerpt.read visible none (stretch cs (opener + 1) found.val)).outcome with
    | ok tree =>
        rw [hread] at herror
        cases herror
    | error inner =>
        rw [hread] at herror
        cases herror
        have hflaw : inner.flaw ≠ .unmatchedParenthesis := hbalanced.flaw_ne_unmatched hread
        exact hflaw

/-- **A reading stays in its scopes**, and finds the closers of groups as far as a word can count
parentheses.  A reading that knows no bounds, and for which as many moments are allowed as the
pattern has characters and one more, reads every pattern as the reading in scopes does, and
comes to the end of what it reads as a tree.  At all its moments the cursor is not behind the
end of its scope, nor that behind the end of the pattern; it goes forward from each to the
next.  If fewer than `2 ^ 31` parentheses are open in the pattern at once, this is so with
checked counts as well, and a `)` that closes nothing and a `(` that nothing closes are met only
outside all groups, where the scope is the whole pattern, and behind parentheses that pair up.

If fewer than `2 ^ 31` parentheses are open at once from a parenthesis to its closer, the search
for the closer finds the first index in the scope up to which the parentheses pair up, and
nothing exactly if there is none.  The content of the group is then read without a stray closer
and without an unmatched parenthesis.  Otherwise a checked count overflows, and the search with
one that is not checked ends at a `(` up to which nothing is closed. -/
theorem reading_stays_in_scope (pattern : String) (cs : Array Char)
    (hcs : pattern.toList.toArray = cs) :
    (∃ moments,
      (∀ allowed, cs.size < allowed → Unguarded.read false cs allowed ⟨0, 0, cs.size⟩ none =
        some ⟨Reading.ofPattern pattern, moments⟩) ∧
      (∀ tree next, (Reading.ofPattern pattern).outcome = .ok (tree, next) → next = cs.size) ∧
      (∀ m ∈ moments, m.pos ≤ m.stop ∧ m.stop ≤ cs.size) ∧
      moments.Pairwise (fun m later => m.pos < later.pos) ∧
      (nesting pattern.toList < counterLimit →
        (∀ allowed, cs.size < allowed → Unguarded.read true cs allowed ⟨0, 0, cs.size⟩ none =
          some ⟨Reading.ofPattern pattern, moments⟩) ∧
        ∀ m ∈ moments, m.MeetsStray cs ∨ m.LacksCloser cs →
          m.depth = 0 ∧ m.stop = cs.size ∧ Balanced (stretch cs 0 m.pos))) ∧
    ∀ (stop : Nat) (hstop : stop ≤ cs.size) (opener : Nat) (hopener : opener < cs.size) search,
      cs[opener] = '(' →
      closer? cs stop hstop opener (opener + 1) (Nat.lt_succ_self _) 1 = search →
      Unguarded.findCloser? false cs stop (opener + 1) 1 = some (search.map Subtype.val) ∧
      (nesting (stretch cs (opener + 1) stop) + 1 < counterLimit →
        Unguarded.findCloser? true cs stop (opener + 1) 1 = some (search.map Subtype.val) ∧
        (∀ close, search.map Subtype.val = some close ↔
          Closes cs stop opener close ∧ ∀ i, Closes cs stop opener i → close ≤ i) ∧
        (search = none ↔ ∀ i, ¬ Closes cs stop opener i) ∧
        ∀ found content, search = some found →
          Reading.within cs found.val (Nat.le_trans (Nat.le_of_lt found.property.2) hstop)
            (opener + 1) none = content →
          content.strays = [] ∧
            ∀ defect, content.outcome = .error defect → defect.flaw ≠ .unmatchedParenthesis) ∧
      (counterLimit ≤ nesting (stretch cs (opener + 1) stop) + 1 →
        Unguarded.findCloser? true cs stop (opener + 1) 1 = none ∧
        ∃ found, search = some found ∧ cs[found.val]? = some '(' ∧
          ∀ i, Closes cs stop opener i → found.val < i) := by
  subst hcs
  refine ⟨?_, ?_⟩
  · obtain ⟨moments, hpassed, hread⟩ :=
      Unguarded.reads_within (Nat.le_refl _) 0 none 0 (.begin pattern.toList.toArray)
    refine ⟨moments, ?_, ?_, ?_, hpassed.ascending, fun hshallow => ⟨?_, ?_⟩⟩
    · intro allowed hallowed
      exact hread false allowed (fun hchecked => by cases hchecked) hallowed
    · intro tree next hok
      rw [Reading.ofPattern_eq_place] at hok
      exact Excerpt.eq_of_place_ok hok
    · intro m hm
      exact ⟨(hpassed.held m hm).pos_le, (hpassed.held m hm).stop_le⟩
    · intro allowed hallowed
      exact hread true allowed (fun _ => hshallow) hallowed
    · intro m hm hmet
      have hpaired := (hpassed.held m hm).paired hshallow
      have houter := hpaired.depth_eq_zero (hpassed.held m hm).stop_le hmet
      exact ⟨houter, hpaired.outside houter⟩
  · intro stop hstop opener hopener search hopen hsearch
    refine ⟨?_, fun hshallow => ⟨?_, ?_, ?_, ?_⟩, fun hdeep => ?_⟩
    · cases search with
      | none => exact Unguarded.findCloser?_of_none hsearch
      | some found =>
          exact Unguarded.findCloser?_of_some hsearch fun hchecked => by cases hchecked
    · cases search with
      | none => exact Unguarded.findCloser?_of_none hsearch
      | some found =>
          exact Unguarded.findCloser?_of_some hsearch fun _ => getElem?_closer hshallow hsearch
    · intro close
      rw [← hsearch]
      exact map_val_closer?_eq_some_iff hstop hopener hopen hshallow
    · rw [← hsearch]
      exact closer?_eq_none_iff hstop hopener hopen hshallow
    · intro found content hfound hcontent
      rw [← hcontent]
      exact reading_content hshallow (hsearch.trans hfound) _
    · obtain ⟨found, hfound, hwrong, hnever⟩ :=
        exists_closer?_of_overfull hstop hopener hopen hdeep
      refine ⟨?_, found, hsearch.symm.trans hfound, hwrong, hnever⟩
      rw [Unguarded.findCloser?_eq stop hstop opener _ (Nat.lt_succ_self _) (fun _ => by decide),
        hfound]
      exact if_pos ⟨rfl, hwrong⟩

/-- A group with a group in it, and a `)` behind them that closes nothing: the outer group has
its closer in the whole pattern, and the stray one is met outside both. -/
theorem reading_stays_in_scope_stray :
    let cs := "x((y)))z".toList.toArray
    (Closes cs 8 1 5 ∧ ∀ i, Closes cs 8 1 i → 5 ≤ i) ∧
      Unguarded.read true cs 9 ⟨0, 0, 8⟩ none =
        some ⟨Reading.ofPattern "x((y)))z", [⟨0, 0, 8⟩, ⟨0, 1, 8⟩, ⟨1, 2, 5⟩, ⟨2, 3, 4⟩,
          ⟨2, 4, 4⟩, ⟨1, 5, 5⟩, ⟨0, 6, 8⟩]⟩ ∧
      Moment.MeetsStray cs ⟨0, 6, 8⟩ ∧ Balanced (stretch cs 0 6) := by
  intro cs
  obtain ⟨⟨moments, -, -, -, -, hshallow⟩, hsearch⟩ := reading_stays_in_scope "x((y)))z" cs rfl
  obtain ⟨hread, hmet⟩ := hshallow (by decide)
  obtain ⟨-, hcloser, -⟩ := hsearch 8 (by decide) 1 (by decide) (some ⟨5, by decide⟩) (by decide)
    (by decide +kernel)
  obtain ⟨-, hfirst, -, -⟩ := hcloser (by decide)
  have hmoments : (Unguarded.read true cs 9 ⟨0, 0, 8⟩ none).map Walk.moments =
      some [⟨0, 0, 8⟩, ⟨0, 1, 8⟩, ⟨1, 2, 5⟩, ⟨2, 3, 4⟩, ⟨2, 4, 4⟩, ⟨1, 5, 5⟩, ⟨0, 6, 8⟩] := by
    decide +kernel
  have hwhole : Unguarded.read true cs 9 ⟨0, 0, 8⟩ none =
      some ⟨Reading.ofPattern "x((y)))z", moments⟩ := hread 9 (by decide)
  rw [hwhole, Option.map_some, Option.some.injEq] at hmoments
  obtain rfl : moments = _ := hmoments
  have hstray : Moment.MeetsStray cs ⟨0, 6, 8⟩ := ⟨by decide, by decide⟩
  exact ⟨(hfirst 5).mp rfl, hwhole, hstray, (hmet _ (by simp) (.inl hstray)).2.2⟩

section Row

variable {cs : Array Char} {n : Nat} (hcs : cs.toList = List.replicate (n + 1 + 2) '(')

include hcs

theorem size_row : cs.size = n + 1 + 2 := by
  rw [← Array.length_toList, hcs, List.length_replicate]

theorem stretch_row (pos : Nat) {stop : Nat} (hstop : stop ≤ cs.size) :
    stretch cs pos stop = List.replicate (stop - pos) '(' := by
  rw [size_row hcs] at hstop
  rw [stretch, hcs, List.take_replicate, List.drop_replicate, Nat.min_eq_left hstop]

/-- In a row of opening parentheses nothing is ever closed. -/
theorem not_closes_row (i : Nat) : ¬ Closes cs cs.size 0 i := by
  intro hcloses
  have hopener : 0 < cs.size := Nat.lt_of_le_of_lt (Nat.zero_le i) hcloses.before
  have hopen : cs[0] = '(' := by
    rw [← Array.getElem_toList hopener]
    simp [hcs]
  refine not_closes_of_counts (Nat.le_refl _) hopener hopen ?_ hcloses.before hcloses
  rw [stretch_row hcs _ (Nat.le_refl _)]
  exact visible_replicate_open _

/-- The search for the closer of its first parenthesis ends at its last one, if these are as
many as a word cannot count. -/
theorem map_val_closer?_row (hn : n + 1 + 2 = counterLimit) :
    (closer? cs cs.size (Nat.le_refl _) 0 1 (Nat.lt_succ_self 0) 1).map Subtype.val =
      some (n + 2) := by
  have hcounted : counted (stretch cs 1 cs.size) = List.replicate (n + 1) '(' := by
    rw [stretch_row hcs _ (Nat.le_refl _), size_row hcs, Nat.add_sub_cancel (n + 2) 1,
      List.replicate_succ']
    exact counted_replicate_open hn []
  have hsize := size_row hcs
  rw [map_val_closer?_one, hcounted, List.length_replicate, if_pos (by omega), Nat.add_comm]

/-- With a checked count the search overflows. -/
theorem findCloser?_row (hn : n + 1 + 2 = counterLimit) :
    Unguarded.findCloser? true cs cs.size 1 1 = none := by
  obtain ⟨found, hfound, hlast⟩ := Option.map_eq_some_iff.mp (map_val_closer?_row hcs hn)
  have hopen : cs[found.val]? = some '(' := by
    rw [hlast, ← Array.getElem?_toList, hcs, List.getElem?_replicate]
    simp
  rw [Unguarded.findCloser?_eq cs.size (Nat.le_refl _) 0 1 (Nat.lt_succ_self 0) fun _ => by decide,
    hfound]
  exact if_pos ⟨rfl, hopen⟩

/-- What has been taken for the content of the first parenthesis has one that lacks its closer. -/
theorem outcome_within_row (hstop : n + 2 ≤ cs.size) (hn : n + 1 + 2 = counterLimit) :
    (Reading.within cs (n + 2) hstop 1 none).outcome = .error ⟨.unmatchedParenthesis, 1⟩ := by
  have hcontent : stretch cs 1 (n + 2) = List.replicate (n + 1) '(' := stretch_row hcs 1 hstop
  rw [Excerpt.within_eq_place cs (n + 2) hstop 1 none (Nat.succ_le_succ (Nat.zero_le _)),
    hcontent, Excerpt.read_counted_row hn]
  rfl

end Row

/-- **Deep scopes lack closers.**  In a row of `2 ^ 31` opening parentheses nothing is closed, but
the search for the closer of the first one finds the last one.  In the content of the group
that is read so, the second parenthesis is reported as unmatched.  With a checked count the
search overflows. -/
theorem deep_scope_lacks_closers :
    ∃ (pattern : String) (cs : Array Char) (hstop : counterLimit - 1 ≤ cs.size),
      pattern.toList = List.replicate counterLimit '(' ∧ pattern.toList.toArray = cs ∧
      (∀ i, ¬ Closes cs cs.size 0 i) ∧
      (closer? cs cs.size (Nat.le_refl _) 0 1 (Nat.lt_succ_self 0) 1).map Subtype.val =
        some (counterLimit - 1) ∧
      (Reading.within cs (counterLimit - 1) hstop 1 none).outcome =
        .error ⟨.unmatchedParenthesis, 1⟩ ∧
      Unguarded.findCloser? true cs cs.size 1 1 = none := by
  obtain ⟨n, hn⟩ : ∃ n, n + 1 + 2 = counterLimit := ⟨counterLimit - 3, rfl⟩
  have hlast : counterLimit - 1 = n + 2 := by omega
  have hrow : (String.ofList (List.replicate counterLimit '(')).toList =
      List.replicate counterLimit '(' := String.toList_ofList
  generalize String.ofList (List.replicate counterLimit '(') = pattern at hrow
  have hcs : pattern.toList.toArray.toList = List.replicate (n + 1 + 2) '(' := by
    rw [hn]
    exact hrow
  rw [hlast]
  refine ⟨pattern, pattern.toList.toArray, by rw [size_row hcs]; omega, hrow, rfl,
    not_closes_row hcs, map_val_closer?_row hcs hn, outcome_within_row hcs _ hn,
    findCloser?_row hcs hn⟩

end PatternAutomata
