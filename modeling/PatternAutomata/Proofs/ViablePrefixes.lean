import PatternAutomata.Proofs.LiveStates
import PatternAutomata.Proofs.MatchedLanguage
import PatternAutomata.Proofs.RunSteps

/-!
# A match stops where nothing can follow

A compiled pattern keeps states active exactly as long as what has been read can
be continued to a word of its language.  One direction holds of any automaton:
without active states nothing is accepted, whatever follows.  The other needs
that the automaton is `Live`, so that an active state leads on to the accepting
one (`activeAfter_nonempty_iff`).

`match_stops_where_no_word_follows` says what this means for a match: it takes
a step for each character of the shortest prefix that no word continues, and for
each character of the text if there is none.
-/

namespace PatternAutomata

/-- Some word of the pattern begins with these characters. -/
def IsViable (pattern : String) (front : List Char) : Prop :=
  ∃ w, PatternMatches pattern w ∧ front <+: w

namespace Automaton

variable {A : Automaton} {front : List Char}

/-- Without active states nothing is accepted, whatever follows. -/
theorem accepts_append_of_isEmpty (back : List Char)
    (hempty : (A.activeAfter A.initial front).isEmpty = true) :
    A.accepts (front ++ back) = false := by
  have hsplit : A.activeAfter A.initial (front ++ back) =
      A.activeAfter (A.activeAfter A.initial front) back := List.foldl_append
  rw [accepts_eq_isAccepting, hsplit]
  exact isAccepting_activeAfter_of_isEmpty hempty

/-- **States stay active while a word can follow.** -/
theorem activeAfter_nonempty_iff (hlive : A.Live) :
    (A.activeAfter A.initial front).isEmpty = false ↔
      ∃ back, A.accepts (front ++ back) = true := by
  constructor
  · intro hactive
    obtain ⟨t, ht⟩ := StateSet.isEmpty_eq_false_iff.mp hactive
    obtain ⟨s, hs, harrive⟩ := mem_activeAfter.mp ht
    rw [mem_initial] at hs
    subst hs
    obtain ⟨back, hrest⟩ := hlive t front harrive.path
    exact ⟨back, accepts_iff_path.mpr (harrive.path.append hrest)⟩
  · intro hfollow
    obtain ⟨back, haccepts⟩ := hfollow
    rw [← Bool.not_eq_true]
    intro hempty
    rw [accepts_append_of_isEmpty back hempty] at haccepts
    cases haccepts

/-- A run takes a step for each character up to the first that leaves nothing
active. -/
theorem length_steps_of_dead {text : List Char} {k : Nat}
    (hdead : (A.activeAfter A.initial (text.take k)).isEmpty = true)
    (hbefore : ∀ j < k, (A.activeAfter A.initial (text.take j)).isEmpty = false) :
    (A.run text).steps.length = k := by
  have hpos : 0 < k := by
    apply Nat.pos_of_ne_zero
    rintro rfl
    cases hdead
  have hinside : k ≤ text.length := by
    apply Nat.le_of_not_lt
    intro hlt
    have hwhole := hbefore text.length hlt
    rw [List.take_length] at hwhole
    rw [List.take_of_length_le (Nat.le_of_lt hlt), hwhole] at hdead
    cases hdead
  apply length_steps_run hinside
  · intro i hi j _ hle
    exact hbefore j (Nat.lt_of_le_of_lt hle hi)
  · intro _ hsurvives
    have hlast := hsurvives k hpos (Nat.le_refl k)
    rw [hlast] at hdead
    cases hdead

/-- A run takes a step for every character of a text that always leaves states
active. -/
theorem length_steps_of_active {text : List Char}
    (hactive : ∀ k, (A.activeAfter A.initial (text.take k)).isEmpty = false) :
    (A.run text).steps.length = text.length := by
  apply length_steps_run (Nat.le_refl _)
  · intro i _ j _ _
    exact hactive j
  · intro hlt
    exact absurd hlt (Nat.lt_irrefl _)

end Automaton

namespace CompiledPattern

variable {pattern : String} {flags : Flags} {r : CompiledPattern}

theorem live_construct (tree : Option Tree) : (construct tree).2.Live := by
  cases tree with
  | none => exact Automaton.live_ofEmptyWord
  | some t => exact Automaton.live_ofTree t

/-- Reducing an automaton changes no set of active states. -/
theorem activeAfter_reduce (flags : Flags) (A : Automaton) (text : List Char) :
    (reduce flags A).2.activeAfter (reduce flags A).2.initial text =
      A.activeAfter A.initial text := by
  unfold reduce
  split
  · calc A.eliminate.activeAfter A.eliminate.initial text
        = A.activeAfter A.eliminate.initial text := Automaton.activeAfter_eliminate A _ text
      _ = A.activeAfter A.initial text := by rw [Automaton.initial_eliminate]
  · rfl

/-- States are active exactly as long as some word of the pattern begins with what
has been read. -/
theorem active_iff_isViable (hresult : (compile pattern flags).result = .ok r)
    (front : List Char) :
    (r.automaton.activeAfter r.automaton.initial front).isEmpty = false ↔
      IsViable pattern front := by
  have hwords := accepts_iff_patternMatches hresult
  obtain ⟨tree, _, rfl⟩ := exists_tree_of_result hresult
  rw [activeAfter_reduce, Automaton.activeAfter_nonempty_iff (live_construct tree)]
  have hword : ∀ w : List Char, (construct tree).2.accepts w = true ↔ PatternMatches pattern w := by
    intro w
    rw [← String.toList_ofList (l := w), ← hwords, accepts_reduce]
  simp only [hword]
  constructor
  · intro hfollow
    obtain ⟨back, hmatch⟩ := hfollow
    exact ⟨front ++ back, hmatch, List.prefix_append front back⟩
  · intro hviable
    obtain ⟨w, hmatch, back, rfl⟩ := hviable
    exact ⟨back, hmatch⟩

/-- **A match stops where no word follows.**  States are active behind those prefixes
of a text that some accepted word continues.  The match takes one step for each
character of the shortest prefix that none continues, and refuses the text; if
there is no such prefix it takes one for each character.  The flags make no
difference to what it records. -/
theorem match_stops_where_no_word_follows
    (hresult : (compile pattern flags).result = .ok r) (text : String) :
    (∀ w : String, r.accepts w = true ↔ PatternMatches pattern w.toList) ∧
    (∀ k, (r.automaton.activeAfter r.automaton.initial (text.toList.take k)).isEmpty = false ↔
      IsViable pattern (text.toList.take k)) ∧
    (∀ k, ¬ IsViable pattern (text.toList.take k) →
      (∀ j < k, IsViable pattern (text.toList.take j)) →
      (r.matchEvents text).length = k ∧ r.accepts text = false) ∧
    ((∀ k, IsViable pattern (text.toList.take k)) →
      (r.matchEvents text).length = text.toList.length) ∧
    ∀ flags', ∃ r', (compile pattern flags').result = .ok r' ∧
      r'.matchEvents text = r.matchEvents text := by
  have hactive := active_iff_isViable hresult
  have hlength : (r.matchEvents text).length = (r.automaton.run text.toList).steps.length := by
    rw [matchEvents, List.length_map, run]
  refine ⟨accepts_iff_patternMatches hresult, ?_, ?_, ?_, ?_⟩
  · intro k
    exact hactive _
  · intro k hdead hbefore
    rw [← hactive, Bool.not_eq_false] at hdead
    simp only [← hactive] at hbefore
    refine ⟨?_, ?_⟩
    · rw [hlength]
      exact Automaton.length_steps_of_dead hdead hbefore
    · have hrefused := Automaton.accepts_append_of_isEmpty (text.toList.drop k) hdead
      rwa [List.take_append_drop] at hrefused
  · intro hviable
    simp only [← hactive] at hviable
    rw [hlength]
    exact Automaton.length_steps_of_active hviable
  · intro flags'
    obtain ⟨tree, hread, rfl⟩ := exists_tree_of_result hresult
    refine ⟨⟨pattern, flags', (reduce flags' (construct tree).2).2⟩, ?_, ?_⟩
    · rw [result_compile, hread]
    · simp only [matchEvents, run, run_reduce]

/-- No word of `ab` begins with `ac`, so a match of `acb` stops there. -/
theorem match_stops_where_no_word_follows_ab :
    ∃ r, (compile "ab").result = .ok r ∧ ¬ IsViable "ab" ['a', 'c'] ∧
      (r.matchEvents "acb").length = 2 ∧ r.accepts "acb" = false ∧
      (r.matchEvents "a").length = 1 := by
  have hread : Tree.ofPattern "ab" = .ok (some (.concat (.char 'a') (.char 'b'))) :=
    (Tree.ofPattern_eq_some_iff "ab" _).mpr
      ⟨.ofBranch (.concat (.first (.char rfl)) (.ofUnit (.char rfl))), by decide, by decide⟩
  have hviable : ∀ front, IsViable "ab" front ↔ front <+: ['a', 'b'] := by
    intro front
    simp [IsViable, PatternMatches, hread, Tree.Matches]
  obtain ⟨r, hresult, _⟩ := exists_result_of_ofPattern {} hread
  have hstop := (match_stops_where_no_word_follows hresult "acb").2.2.1 2
    (by rw [hviable]; decide) (by simp only [hviable]; decide)
  have hthrough := (match_stops_where_no_word_follows hresult "a").2.2.2.1
    (by
      intro k
      rw [hviable]
      exact (List.take_prefix k _).trans (by decide))
  exact ⟨r, hresult, by rw [hviable]; decide, hstop.1, hstop.2, hthrough⟩

end CompiledPattern

end PatternAutomata
