import PatternAutomata.CompiledPattern
import PatternAutomata.Proofs.LockStep
import PatternAutomata.Proofs.ReadingAndPrinting
import PatternAutomata.Proofs.ThompsonLanguage

/-!
# The language a compiled pattern matches

A compilation succeeds exactly if its pattern can be read (`result_compile`), and
what it yields runs as the automaton of the tree does, with or without its inner
silent edges (`run_reduce`).  So the flags have no part in a verdict, and the
language is that of the tree, or the empty word where there is no tree
(`accepts_construct_iff`).

Which patterns can be read, and as which tree, is known from their printed
forms.  `compile_decides_language` puts the stages together; with `PatternMatches`
for the language of a pattern, what is compiled accepts that language
(`accepts_iff_patternMatches`).

A pattern with too many groups inside each other is not compiled, although it is the
printed form of a shaped tree (`deep_pattern_is_not_compiled`).
-/

namespace PatternAutomata

/-- The language of a pattern: the words of its tree, or the empty word alone where
nothing of the pattern counts.  A pattern that cannot be read has no words. -/
def PatternMatches (pattern : String) (w : List Char) : Prop :=
  match Tree.ofPattern pattern with
  | .error _ => False
  | .ok none => w = []
  | .ok (some t) => t.Matches w

namespace Automaton

/-- The automaton of the empty word has no edges, so it accepts nothing else. -/
theorem accepts_ofEmptyWord_iff (w : List Char) : ofEmptyWord.accepts w = true ↔ w = [] := by
  have hidle : ofEmptyWord.edgesFrom ofEmptyWord.start = [] := rfl
  rw [accepts_iff_path]
  refine ⟨?_, ?_⟩
  · intro hpath
    exact (hpath.eq_of_idle hidle).1
  · intro hempty
    rw [hempty]
    exact .nil 0

end Automaton

namespace CompiledPattern

/-- The automaton a tree is compiled to accepts the words of the tree, or the empty word
where there is no tree. -/
theorem accepts_construct_iff (tree : Option Tree) (w : List Char) :
    (construct tree).2.accepts w = true ↔ match tree with
      | none => w = []
      | some t => t.Matches w := by
  cases tree with
  | none => exact Automaton.accepts_ofEmptyWord_iff w
  | some t =>
      rw [Automaton.accepts_iff_path]
      exact Automaton.path_ofTree t w

theorem run_reduce (flags : Flags) (A : Automaton) (w : List Char) :
    (reduce flags A).2.run w = A.run w := by
  unfold reduce
  split
  · exact Automaton.run_eliminate A w
  · rfl

/-- The flags have no part in a verdict. -/
theorem accepts_reduce (pattern : String) (flags : Flags) (A : Automaton) (text : String) :
    accepts ⟨pattern, flags, (reduce flags A).2⟩ text = A.accepts text.toList :=
  congrArg Run.accepted (run_reduce flags A text.toList)

/-- A pattern is compiled if it can be read, whatever the flags. -/
theorem result_compile (pattern : String) (flags : Flags) :
    (compile pattern flags).result = match Tree.ofPattern pattern with
      | .error e => .error (.unreadable e)
      | .ok tree => .ok ⟨pattern, flags, (reduce flags (construct tree).2).2⟩ := by
  unfold compile Tree.ofPattern
  dsimp only
  cases (Reading.ofPattern pattern).result pattern with
  | error e => rfl
  | ok tree => rfl

/-- What is compiled from a pattern decides the words of the tree that was read. -/
theorem exists_result_of_ofPattern {pattern : String} {tree : Option Tree} (flags : Flags)
    (hread : Tree.ofPattern pattern = .ok tree) :
    ∃ r, (compile pattern flags).result = .ok r ∧
      ∀ w : String, r.accepts w = (construct tree).2.accepts w.toList := by
  have hresult := result_compile pattern flags
  rw [hread] at hresult
  refine ⟨_, hresult, ?_⟩
  intro w
  exact accepts_reduce pattern flags _ w

/-- What is compiled is the automaton of the tree that was read, reduced or not. -/
theorem exists_tree_of_result {pattern : String} {flags : Flags} {r : CompiledPattern}
    (hresult : (compile pattern flags).result = .ok r) :
    ∃ tree, Tree.ofPattern pattern = .ok tree ∧
      r = ⟨pattern, flags, (reduce flags (construct tree).2).2⟩ := by
  rw [result_compile] at hresult
  cases hread : Tree.ofPattern pattern with
  | error e =>
      rw [hread] at hresult
      cases hresult
  | ok tree =>
      rw [hread] at hresult
      cases hresult
      exact ⟨tree, rfl, rfl⟩

/-- A compiled pattern accepts the words of its pattern. -/
theorem accepts_iff_patternMatches {pattern : String} {flags : Flags} {r : CompiledPattern}
    (hresult : (compile pattern flags).result = .ok r) (text : String) :
    r.accepts text = true ↔ PatternMatches pattern text.toList := by
  obtain ⟨tree, hread, rfl⟩ := exists_tree_of_result hresult
  rw [accepts_reduce, accepts_construct_iff, PatternMatches, hread]
  cases tree <;> rfl

/-- A pattern that cannot be read is not compiled, and the error is the one of the reading. -/
theorem result_compile_of_error {pattern : String} {e : PatternError} (flags : Flags)
    (herror : Tree.ofPattern pattern = .error e) :
    (compile pattern flags).result = .error (.unreadable e) := by
  rw [result_compile, herror]

/-- **A compiled pattern decides the language of its tree**, as far as a word can count
parentheses.  A pattern of which nothing counts matches the empty text alone; one of which
the printed form of a shaped tree counts matches the words of that tree, if fewer than
`2 ^ 31` groups stand inside each other, and is not compiled otherwise; no other pattern is
compiled.  Neither flag has a part in this. -/
theorem compile_decides_language (pattern : String) (flags : Flags) :
    (visible pattern.toList = [] →
      ∃ r, (compile pattern flags).result = .ok r ∧ ∀ w, r.accepts w = true ↔ w = "") ∧
    (∀ t, Tree.Shaped .expression t → t.text.toList = visible pattern.toList →
      (t.groupDepth < counterLimit →
        ∃ r, (compile pattern flags).result = .ok r ∧
          ∀ w, r.accepts w = true ↔ t.Matches w.toList) ∧
      (counterLimit ≤ t.groupDepth →
        ∃ e, Tree.ofPattern pattern = .error e ∧
          (compile pattern flags).result = .error (.unreadable e))) ∧
    (visible pattern.toList ≠ [] →
      (¬ ∃ t, Tree.Shaped .expression t ∧ t.text.toList = visible pattern.toList) →
      ∃ e, Tree.ofPattern pattern = .error e ∧
        (compile pattern flags).result = .error (.unreadable e)) ∧
    ∀ flags' : Flags, (compile pattern flags).result.map accepts =
      (compile pattern flags').result.map accepts := by
  refine ⟨?_, ?_, ?_, ?_⟩
  · intro hempty
    obtain ⟨r, hresult, hverdict⟩ :=
      exists_result_of_ofPattern flags ((Tree.ofPattern_eq_none_iff pattern).mpr hempty)
    refine ⟨r, hresult, ?_⟩
    intro w
    rw [hverdict, accepts_construct_iff]
    exact String.toList_eq_nil_iff
  · intro t hshape htext
    constructor
    · intro hshallow
      obtain ⟨r, hresult, hverdict⟩ := exists_result_of_ofPattern flags
        ((Tree.ofPattern_eq_some_iff_groupDepth pattern t).mpr ⟨hshape, htext, hshallow⟩)
      refine ⟨r, hresult, ?_⟩
      intro w
      rw [hverdict, accepts_construct_iff]
    · intro hdeep
      rw [← hshape.nesting_eq htext] at hdeep
      obtain ⟨e, herror⟩ := Tree.exists_ofPattern_eq_error hdeep
      exact ⟨e, herror, result_compile_of_error flags herror⟩
  · intro hcounts hunshaped
    cases hread : Tree.ofPattern pattern with
    | error e => exact ⟨e, rfl, result_compile_of_error flags hread⟩
    | ok tree =>
        cases tree with
        | none => exact (hcounts ((Tree.ofPattern_eq_none_iff pattern).mp hread)).elim
        | some t =>
            obtain ⟨hshape, htext, -⟩ := (Tree.ofPattern_eq_some_iff pattern t).mp hread
            exact (hunshaped ⟨t, hshape, htext⟩).elim
  · intro flags'
    rw [result_compile, result_compile]
    cases Tree.ofPattern pattern with
    | error e => rfl
    | ok tree =>
        have hsame : ∀ w, accepts ⟨pattern, flags, (reduce flags (construct tree).2).2⟩ w =
            accepts ⟨pattern, flags', (reduce flags' (construct tree).2).2⟩ w := by
          intro w
          rw [accepts_reduce, accepts_reduce]
        exact congrArg Except.ok (funext hsame)

/-- A stray parenthesis, a starred literal before one, and a star with nothing to repeat. -/
theorem compile_decides_language_cases :
    (∃ r, (compile ")a").result = .ok r ∧ ∀ w, r.accepts w = true ↔ w = "") ∧
    (∃ r, (compile "a*)b").result = .ok r ∧
      ∀ w, r.accepts w = true ↔ (Tree.star (.char 'a')).Matches w.toList) ∧
    ∃ e, Tree.ofPattern "*" = .error e ∧ (compile "*").result = .error (.unreadable e) := by
  have hstar : ¬ ∃ t, Tree.Shaped .expression t ∧ t.text.toList = visible "*".toList := by
    intro ⟨t, hshape, htext⟩
    have hread := (Tree.ofPattern_eq_some_iff "*" t).mpr ⟨hshape, htext, by decide⟩
    have hnone : Excerpt.read counted none "*".toList = ⟨[], .error ⟨.nothingToRepeat, 0⟩⟩ :=
      Excerpt.read_star_none rfl
    rw [Tree.ofPattern_eq_ok_iff, hnone] at hread
    cases hread
  have hstarred := (compile_decides_language "a*)b" {}).2.1 (.star (.char 'a'))
    (.ofBranch (.firstStar (.char rfl))) (by decide)
  exact ⟨(compile_decides_language ")a" {}).1 (by decide), hstarred.1 (by decide),
    (compile_decides_language "*" {}).2.2.1 (by decide) hstar⟩

/-- **Deep patterns are not compiled.**  A literal in `2 ^ 31` groups is a shaped tree, and its
printed form counts in full, but with all flags it is refused: the second parenthesis is
reported as unmatched. -/
theorem deep_pattern_is_not_compiled :
    ∃ t pattern, t = Nat.repeat Tree.group counterLimit (.char 'a') ∧
      pattern.toList =
        List.replicate counterLimit '(' ++ (['a'] ++ List.replicate counterLimit ')') ∧
      Tree.Shaped .expression t ∧ t.text.toList = visible pattern.toList ∧
      ∀ flags, (compile pattern flags).result =
        .error (.unreadable ⟨⟨.unmatchedParenthesis, 1⟩, pattern⟩) := by
  have hshape : Tree.Shaped .expression (Nat.repeat Tree.group counterLimit (.char 'a')) :=
    Tree.shaped_repeat_group (.ofBranch (.first (.char rfl))) counterLimit
  refine ⟨_, (Nat.repeat Tree.group counterLimit (.char 'a')).text, rfl, ?_, hshape, ?_, ?_⟩
  · rw [Tree.toList_text]
    exact Tree.spelling_repeat_group counterLimit (.char 'a')
  · rw [Tree.toList_text]
    exact hshape.balanced.visible_eq.symm
  · intro flags
    exact result_compile_of_error flags (Tree.ofPattern_text_repeat_group (.char 'a'))

end CompiledPattern

end PatternAutomata
