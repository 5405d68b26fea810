import PatternAutomata.Proofs.CountedReading
import PatternAutomata.Proofs.FaultOrder

/-!
# The fault that is reported

A pattern that cannot be read is reported with the fault that shows first.  All
faults are faults of the whole part that counts, and a reading is followed
through it scope by scope (`ScopeRest`).  `Excerpt.Accounts` says of the reading of
a scope's rest that it succeeds if no character of that rest is at fault, and
otherwise ends with the fault among these that shows first.

Every step of the reading keeps that: a group (`Excerpt.accounts_group`), a bar
(`Excerpt.accounts_bar`), and single characters, of which only a star can be at
fault.  So it holds of every scope (`Excerpt.accounts_read`), and of a whole
pattern, if a word can count the parentheses that are open in it.  A pattern with too
many of them is always reported, but not always with that fault
(`deep_fault_is_misreported`).
-/

namespace PatternAutomata

/-- `cs` is what is left of a scope of `w`, from index `low` up to `high`; `done` stands in
front of it, and `tail`, if there is any, begins with the parenthesis that closes the scope. -/
structure ScopeRest (w done cs tail : List Char) (low high : Nat) : Prop where
  whole : w = done ++ (cs ++ tail)
  low_eq : low = done.length
  high_eq : high = low + cs.length
  ends : visible (cs ++ tail) = cs

namespace ScopeRest

variable {w done rest tail : List Char} {c : Char} {low high : Nat}

/-- A character that is no parenthesis leaves the rest of the scope behind it. -/
theorem next (h : ScopeRest w done (c :: rest) tail low high) (hopen : c ≠ '(')
    (hclose : c ≠ ')') : ScopeRest w (done ++ [c]) rest tail (low + 1) high where
  whole := by rw [h.whole, List.append_assoc]; rfl
  low_eq := by rw [h.low_eq, List.length_append, List.length_singleton]
  high_eq := by rw [h.high_eq, List.length_cons]; omega
  ends := by
    have hends := h.ends
    rw [List.cons_append, visible_cons _ hopen hclose] at hends
    exact (List.cons.inj hends).2

/-- The content of a group, its closer and the rest of the scope stand behind its opener. -/
theorem content_append (hclosed : (visible rest).length < rest.length) :
    visible rest ++ ')' :: (rest.drop ((visible rest).length + 1) ++ tail) = rest ++ tail := by
  rw [← List.cons_append, ← List.append_assoc, visible_append_drop hclosed]

/-- The content of a group is a scope of its own. -/
theorem content (h : ScopeRest w done ('(' :: rest) tail low high)
    (hclosed : (visible rest).length < rest.length) :
    ScopeRest w (done ++ ['(']) (visible rest)
      (')' :: (rest.drop ((visible rest).length + 1) ++ tail))
      (low + 1) (low + 1 + (visible rest).length) where
  whole := by rw [content_append hclosed, h.whole, List.append_assoc]; rfl
  low_eq := by rw [h.low_eq, List.length_append, List.length_singleton]
  high_eq := rfl
  ends := by
    rw [content_append hclosed]
    exact visibleFrom_append_of_closed 0 rest tail hclosed

/-- Behind a group the scope goes on to the same end. -/
theorem after (h : ScopeRest w done ('(' :: rest) tail low high)
    (hclosed : (visible rest).length < rest.length) :
    ScopeRest w (done ++ '(' :: (visible rest ++ [')'])) (rest.drop ((visible rest).length + 1))
      tail (low + ((visible rest).length + 2)) high where
  whole := by
    rw [h.whole, List.cons_append, ← content_append hclosed]
    simp
  low_eq := by
    rw [h.low_eq, List.length_append, List.length_cons, List.length_append, List.length_singleton]
  high_eq := by
    rw [h.high_eq, List.length_cons, List.length_drop]
    omega
  ends := by
    have hsame : visible (rest ++ tail) = visible rest :=
      visibleFrom_append_of_closed 0 rest tail hclosed
    have hlonger : (visible (rest ++ tail)).length < (rest ++ tail).length := by
      rw [hsame, List.length_append]
      omega
    have hends := h.ends
    rw [List.cons_append, visible_open hlonger, hsame,
      List.drop_append_of_le_length hclosed] at hends
    have hrest := (List.cons.inj hends).2.trans (visible_append_drop hclosed).symm
    exact (List.cons.inj (List.append_cancel_left hrest)).2

/-- A parenthesis that its scope does not close is closed by nothing behind the scope. -/
theorem unclosed (h : ScopeRest w done ('(' :: rest) tail low high)
    (hopen : ¬ (visible rest).length < rest.length) :
    visible (rest ++ tail) = rest ++ tail := by
  apply visible_eq_self_of_not_closed
  intro hclosed
  have hends := h.ends
  rw [List.cons_append, visible_open hclosed] at hends
  have hshort := congrArg List.length (List.cons.inj hends).2
  have hlong : (visible rest).length ≤ (visible (rest ++ tail)).length :=
    (visibleFrom_isPrefix_append 0 rest tail).length_le
  rw [List.length_append, List.length_cons] at hshort
  omega

/-- A parenthesis that is closed can only be at fault for having no content. -/
theorem fault_opener {flaw : Flaw} {shown : Nat}
    (h : ScopeRest w done ('(' :: rest) tail low high)
    (hclosed : (visible rest).length < rest.length) (hfault : Fault w ⟨flaw, low⟩ shown) :
    visible rest = [] ∧ shown = low + 1 := by
  have hsame : visible (rest ++ tail) = visible rest :=
    visibleFrom_append_of_closed 0 rest tail hclosed
  rw [h.whole, h.low_eq, List.cons_append, fault_iff] at hfault
  rcases hfault with ⟨-, hnever, -⟩ | ⟨hstar, -⟩ | ⟨-, ⟨back, hback⟩, -, hshown⟩ | ⟨hbar, -⟩
  · rw [hsame] at hnever
    rw [hnever, List.length_append] at hclosed
    omega
  · cases hstar
  · rw [← hsame, hback, h.low_eq]
    exact ⟨visible_closer back, hshown⟩
  · cases hbar

theorem faultless_opener (h : ScopeRest w done ('(' :: rest) tail low high)
    (hclosed : (visible rest).length < rest.length) (hcontent : visible rest ≠ []) :
    Faultless w low (low + 1) := by
  apply Faultless.of_here
  intro flaw shown hfault
  exact hcontent (h.fault_opener hclosed hfault).1

theorem faultless_closer (h : ScopeRest w done ('(' :: rest) tail low high)
    (hclosed : (visible rest).length < rest.length) :
    Faultless w (low + 1 + (visible rest).length) (low + 1 + (visible rest).length + 1) := by
  apply Faultless.of_here
  intro flaw shown hfault
  have hposition : low + 1 + (visible rest).length = (done ++ ['('] ++ visible rest).length := by
    rw [(h.content hclosed).low_eq, ← List.length_append]
  rw [(h.content hclosed).whole, ← List.append_assoc, hposition] at hfault
  exact not_fault_of_plain (by decide) (by decide) (by decide) hfault

/-- A group without content is at fault, which shows at its closer. -/
theorem leads_opener (h : ScopeRest w done ('(' :: rest) tail low high)
    (hclosed : (visible rest).length < rest.length) (hnothing : visible rest = []) :
    Leads w low high ⟨.emptyExpression, low⟩ := by
  have hfault : Fault w ⟨.emptyExpression, low⟩ (low + 1) := by
    rw [h.whole, h.low_eq, List.cons_append, ← content_append hclosed, hnothing]
    exact .emptyGroup rfl
  have hcloser := h.faultless_closer hclosed
  rw [hnothing] at hcloser
  refine Leads.of_later hfault ?_ ?_ ?_
  · rw [h.high_eq, List.length_cons]
    omega
  · intro flaw later hother
    exact (h.fault_opener hclosed hother).2
  · intro other later hother hbehind _
    have hpast := hcloser other later hother hbehind
    exact Nat.lt_of_lt_of_le hpast hother.position_le

end ScopeRest

namespace Excerpt

/-- The reading of the characters from `low` up to `high` accounts for their faults: it
succeeds if there is none, and otherwise ends with the one that shows first. -/
def Accounts (x : Excerpt) (w : List Char) (low high : Nat) : Prop :=
  match x.outcome with
  | .ok _ => Faultless w low high
  | .error defect => Leads w low high ⟨defect.flaw, low + defect.position⟩

theorem accounts_of_ok {x : Excerpt} {w : List Char} {low high : Nat} {tree : Option Tree}
    (hok : x.outcome = .ok tree) : x.Accounts w low high ↔ Faultless w low high := by
  rw [Accounts, hok]

theorem accounts_of_error {x : Excerpt} {w : List Char} {low high : Nat} {defect : Defect}
    (herror : x.outcome = .error defect) :
    x.Accounts w low high ↔ Leads w low high ⟨defect.flaw, low + defect.position⟩ := by
  rw [Accounts, herror]

theorem accounts_andThen_of_ok {x : Excerpt} {next : Option Tree → Excerpt} {w : List Char}
    {low high : Nat} {tree : Option Tree} (hok : x.outcome = .ok tree) :
    (x.andThen next).Accounts w low high ↔ (next tree).Accounts w low high := by
  rw [Accounts, Accounts, outcome_andThen_of_ok hok]

/-- Characters that are not at fault are passed over. -/
theorem Accounts.shift {x : Excerpt} {w : List Char} {low n high : Nat}
    (h : x.Accounts w (low + n) high) (hfree : Faultless w low (low + n)) :
    (x.shift n).Accounts w low high := by
  obtain ⟨strays, defect | tree⟩ := x
  · have hleads := h.behind hfree (Nat.le_add_right low n)
    rwa [Nat.add_assoc] at hleads
  · exact hfree.append h

section Scope

variable {w done rest tail : List Char} {branch : Option Tree} {low high : Nat}

/-- **A group** is accounted for if its content is, and what follows it as well. -/
theorem accounts_group (hscope : ScopeRest w done ('(' :: rest) tail low high)
    (hclosed : (visible rest).length < rest.length)
    (hcontent : (read visible none (visible rest)).Accounts w (low + 1)
      (low + 1 + (visible rest).length))
    (hafter : ∀ inner, (read visible none (visible rest)).outcome = .ok (some inner) →
      (read visible (some (Tree.append branch (.group inner)))
        (rest.drop ((visible rest).length + 1))).Accounts w
          (low + ((visible rest).length + 2)) high) :
    (read visible branch ('(' :: rest)).Accounts w low high := by
  rw [read_open hclosed]
  by_cases hnothing : visible rest = []
  · rw [hnothing, read_nil]
    exact hscope.leads_opener hclosed hnothing
  · have hopener := hscope.faultless_opener hclosed hnothing
    have hcloser := hscope.faultless_closer hclosed
    cases hread : (read visible none (visible rest)).outcome with
    | error defect =>
        have hinside : low + 1 + (visible rest).length ≤ high := by
          rw [hscope.high_eq, List.length_cons]
          omega
        rw [accounts_of_error hread] at hcontent
        rw [accounts_of_error (outcome_andThen_of_error (outcome_shift_of_error hread)),
          ← Nat.add_assoc]
        exact (hcontent.extend hcloser hinside).behind hopener (Nat.le_succ low)
    | ok found =>
        rw [accounts_of_ok hread] at hcontent
        rw [accounts_andThen_of_ok (outcome_shift_eq_ok.mpr hread)]
        cases found with
        | none =>
            rw [outcome_read_eq_none_iff, visible_visible] at hread
            exact absurd hread hnothing
        | some inner =>
            have hfree := (hopener.append hcontent).append hcloser
            have hlength : low + 1 + (visible rest).length + 1 =
                low + ((visible rest).length + 2) := by omega
            rw [hlength] at hfree
            exact (hafter inner hread).shift hfree

/-- What is read behind a bar is missing exactly if no branch can follow there. -/
theorem behindBranch_iff {found : Option Tree} (hends : visible (rest ++ tail) = rest)
    (hread : (read visible none rest).outcome = .ok found) :
    BehindBranch (rest ++ tail) ↔ found = none := by
  cases rest with
  | nil =>
      rw [read_nil] at hread
      cases hread
      refine iff_of_true ?_ rfl
      rcases visible_eq_nil_iff.mp hends with hend | ⟨others, hcloser⟩
      · exact Or.inl hend
      · rw [hcloser]
        exact Or.inr (Or.inl rfl)
  | cons c others =>
      have hfound : found ≠ none := by
        intro hnone
        have hself := visible_visible (c :: others ++ tail)
        rw [hends, (outcome_read_eq_none_iff _).mp (hnone ▸ hread)] at hself
        cases hself
      refine iff_of_false ?_ hfound
      intro hbehind
      rw [List.cons_append] at hbehind hends
      rcases hbehind with hnil | hcloser | hbar
      · cases hnil
      · rw [Option.some.inj hcloser, visible_closer] at hends
        cases hends
      · rw [Option.some.inj hbar, read_bar, outcome_andThen_eq_ok] at hread
        obtain ⟨right, -, hmissing⟩ := hread
        cases hmissing

/-- **A bar** is accounted for if what follows it is: its own fault shows last. -/
theorem accounts_bar (hscope : ScopeRest w done ('|' :: rest) tail low high)
    (hreached : Reached done branch) (hright : (read visible none rest).Accounts w (low + 1) high) :
    (read visible branch ('|' :: rest)).Accounts w low high := by
  have hbehind := hscope.next (by decide) (by decide)
  have hhere : ∀ flaw later, Fault w ⟨flaw, low⟩ later ↔
      (branch = none ∨ BehindBranch (rest ++ tail)) ∧ flaw = .emptyExpression ∧ later = high := by
    intro flaw later
    rw [hscope.whole, hbehind.high_eq, hscope.low_eq, List.cons_append, fault_iff, hbehind.ends,
      hreached.beforeBranch_iff]
    simp
  rw [read_bar]
  cases hread : (read visible none rest).outcome with
  | error defect =>
      rw [accounts_of_error hread] at hright
      rw [accounts_of_error (outcome_andThen_of_error (outcome_shift_of_error hread)),
        ← Nat.add_assoc]
      exact hright.before_bar fun flaw later hfault => ((hhere flaw later).mp hfault).2.2
  | ok found =>
      rw [accounts_of_ok hread] at hright
      rw [accounts_andThen_of_ok (outcome_shift_eq_ok.mpr hread)]
      have hmissing : branch = none ∨ found = none → Leads w low high ⟨.emptyExpression, low⟩ := by
        intro hmissing
        rw [← behindBranch_iff hbehind.ends hread] at hmissing
        refine Leads.of_later ((hhere _ _).mpr ⟨hmissing, rfl, rfl⟩) (Nat.le_refl high) ?_ ?_
        · intro flaw later hfault
          exact ((hhere flaw later).mp hfault).2.2
        · intro other later hother hpast hinside
          exact absurd (hright other later hother hpast) (Nat.not_le.mpr hinside)
      cases branch with
      | none => exact hmissing (Or.inl rfl)
      | some left =>
          cases found with
          | none => exact hmissing (Or.inr rfl)
          | some right =>
              refine Faultless.append (Faultless.of_here ?_) hright
              intro flaw later hfault
              have habsent := ((hhere flaw later).mp hfault).1
              rw [behindBranch_iff hbehind.ends hread] at habsent
              simp at habsent

/-- **The reading of a scope's rest accounts for its faults.** -/
theorem accounts_read {cs : List Char} (hscope : ScopeRest w done cs tail low high)
    (hreached : Reached done branch) : (read visible branch cs).Accounts w low high := by
  induction branch, cs using read.induct visible generalizing done tail low high with
  | case1 branch =>
      rw [read_nil]
      intro defect shown _ hposition
      rw [hscope.high_eq]
      exact hposition
  | case2 branch rest hclosed ihcontent ihafter =>
      have hbegins : BeforeBranch (done ++ ['(']) := Or.inr (Or.inl List.getLast?_concat)
      refine accounts_group hscope hclosed (ihcontent (hscope.content hclosed) (.begin hbegins)) ?_
      intro inner hread
      obtain ⟨hshape, hspelling⟩ := (outcome_read_eq_some_iff _ inner).mp hread
      rw [visible_visible] at hspelling
      have hgroup := hreached.append (.group hshape)
      rw [Tree.spelling, hspelling] at hgroup
      exact ihafter inner (hscope.after hclosed) hgroup
  | case3 branch rest hopen =>
      rw [read_open_unclosed hopen]
      have hfault : Fault w ⟨.unmatchedParenthesis, low⟩ low := by
        rw [hscope.whole, hscope.low_eq]
        exact .unclosed rfl (hscope.unclosed hopen)
      exact .here hfault (hscope.high_eq ▸ Nat.le_add_right low _)
  | case4 branch rest _ =>
      have hends := hscope.ends
      rw [List.cons_append, visible_closer] at hends
      cases hends
  | case5 branch rest hopen hclose ih =>
      have hbegins : BeforeBranch (done ++ ['|']) := Or.inr (Or.inr List.getLast?_concat)
      exact accounts_bar hscope hreached (ih (hscope.next hopen hclose) (.begin hbegins))
  | case6 branch rest hnone _ _ _ =>
      rw [read_star_none hnone]
      have hstands := hreached.repeatLast_eq_none_iff.mp hnone
      have hfault : Fault w ⟨.nothingToRepeat, low⟩ low := by
        rw [hscope.whole, hscope.low_eq]
        exact fault_iff.mpr (Or.inr (Or.inl ⟨rfl, hstands, rfl, rfl⟩))
      exact .here hfault (hscope.high_eq ▸ Nat.le_add_right low _)
  | case7 branch rest repeated hrepeat hopen hclose _ ih =>
      rw [read_star hrepeat]
      refine (ih (hscope.next hopen hclose) (hreached.repeatLast hrepeat)).shift (.of_here ?_)
      intro flaw later hfault
      rw [hscope.whole, hscope.low_eq, List.cons_append, fault_iff,
        ← hreached.repeatLast_eq_none_iff, hrepeat] at hfault
      simp at hfault
  | case8 branch c rest hopen hclose hbar hstar ih =>
      rw [read_char hopen hclose hbar hstar]
      have hliteral : Tree.Shaped .unit (.char c) :=
        .char (isReserved_eq_false_iff.mpr ⟨hopen, hclose, hbar, hstar⟩)
      refine (ih (hscope.next hopen hclose) (hreached.append hliteral)).shift (.of_here ?_)
      intro flaw later hfault
      rw [hscope.whole, hscope.low_eq] at hfault
      exact not_fault_of_plain hopen hbar hstar hfault

end Scope

/-- What counts of a stretch is a scope of its own. -/
theorem accounts_read_visible (cs : List Char) :
    (read visible none (visible cs)).Accounts (visible cs) 0 (visible cs).length := by
  have hscope : ScopeRest (visible cs) [] (visible cs) [] 0 (visible cs).length := by
    refine ⟨by simp, rfl, by simp, ?_⟩
    rw [List.append_nil, visible_visible]
  exact accounts_read hscope (.begin (Or.inl rfl))

theorem not_fault_of_outcome_ok {cs : List Char} {tree : Option Tree} {defect : Defect}
    {shown : Nat} (hok : (read visible none cs).outcome = .ok tree) :
    ¬ Fault (visible cs) defect shown := by
  intro hfault
  rw [← outcome_read_visible] at hok
  have hfree := (accounts_of_ok hok).mp (accounts_read_visible cs)
  have hlong := hfree defect shown hfault (Nat.zero_le _)
  exact absurd hfault.position_lt_length (Nat.not_lt.mpr hlong)

theorem firstFault_of_outcome_error {cs : List Char} {defect : Defect}
    (herror : (read visible none cs).outcome = .error defect) : FirstFault (visible cs) defect := by
  rw [← outcome_read_visible] at herror
  have hleads := (accounts_of_error herror).mp (accounts_read_visible cs)
  rw [Nat.zero_add] at hleads
  obtain ⟨shown, hfault, -, hfirst⟩ := hleads.shows
  refine ⟨shown, hfault, ?_⟩
  intro other later hother
  exact hfirst other later hother (Nat.zero_le _) hother.position_lt_length

/-- A stretch cannot be read exactly if something of what counts is at fault. -/
theorem exists_error_iff (cs : List Char) :
    (∃ defect, (read visible none cs).outcome = .error defect) ↔
      ∃ defect shown, Fault (visible cs) defect shown := by
  constructor
  · intro ⟨defect, herror⟩
    obtain ⟨shown, hfault, -⟩ := firstFault_of_outcome_error herror
    exact ⟨defect, shown, hfault⟩
  · intro ⟨defect, shown, hfault⟩
    cases hread : (read visible none cs).outcome with
    | error found => exact ⟨found, rfl⟩
    | ok tree => exact absurd hfault (not_fault_of_outcome_ok hread)

/-- A reading ends with the fault that shows first. -/
theorem outcome_read_eq_error_iff (cs : List Char) (defect : Defect) :
    (read visible none cs).outcome = .error defect ↔ FirstFault (visible cs) defect := by
  refine ⟨firstFault_of_outcome_error, ?_⟩
  intro hfirst
  have hfault : ∃ shown, Fault (visible cs) defect shown := hfirst.imp fun _ h => h.1
  obtain ⟨found, herror⟩ := (exists_error_iff cs).mpr ⟨defect, hfault⟩
  rw [herror, (firstFault_of_outcome_error herror).unique hfirst]

end Excerpt

/-- A pattern cannot be read exactly if something of the part that counts is at fault, or its
parentheses are nested deeper than a word can count. -/
theorem exists_ofPattern_eq_error_iff (pattern : String) :
    (∃ e, Tree.ofPattern pattern = .error e) ↔
      (∃ defect shown, Fault (visible pattern.toList) defect shown) ∨
        counterLimit ≤ nesting pattern.toList := by
  rw [← Excerpt.exists_error_iff]
  by_cases hshallow : nesting pattern.toList < counterLimit
  · simp only [Tree.ofPattern_eq_error_iff_of_shallow hshallow, Nat.not_le.mpr hshallow, or_false]
    constructor
    · intro ⟨e, herror, _⟩
      exact ⟨e.toDefect, herror⟩
    · intro ⟨defect, herror⟩
      exact ⟨⟨defect, pattern⟩, herror, rfl⟩
  · have hdeep := Nat.not_lt.mp hshallow
    exact iff_of_true (Tree.exists_ofPattern_eq_error hdeep) (.inr hdeep)

/-- **A pattern is reported with the fault that shows first**, as far as a word can count its
parentheses.  It cannot be read exactly if something of the part that counts is at fault, or
`2 ^ 31` parentheses are open in it at once.  If fewer are open everywhere, the error is the
flaw and the character of the fault that shows first, the rightmost of those that show
together, and it holds the whole pattern. -/
theorem reading_reports_first_fault (pattern : String) :
    ((∃ e, Tree.ofPattern pattern = .error e) ↔
      (∃ defect shown, Fault (visible pattern.toList) defect shown) ∨
        counterLimit ≤ nesting pattern.toList) ∧
    (nesting pattern.toList < counterLimit →
      ∀ e, Tree.ofPattern pattern = .error e ↔
        FirstFault (visible pattern.toList) e.toDefect ∧ e.pattern = pattern) := by
  refine ⟨exists_ofPattern_eq_error_iff pattern, ?_⟩
  intro hshallow e
  rw [Tree.ofPattern_eq_error_iff_of_shallow hshallow, Excerpt.outcome_read_eq_error_iff]

/-- The empty group comes first, although the bar stands in front of it. -/
theorem reading_reports_first_fault_group :
    Tree.ofPattern "|()" = .error ⟨⟨.emptyExpression, 1⟩, "|()"⟩ ∧
      FirstFault (visible "|()".toList) ⟨.emptyExpression, 1⟩ := by
  have hread : Tree.ofPattern "|()" = .error ⟨⟨.emptyExpression, 1⟩, "|()"⟩ := by
    cbv
  obtain ⟨-, hreported⟩ := reading_reports_first_fault "|()"
  exact ⟨hread, ((hreported (by decide) _).mp hread).1⟩

/-- The first of some opening parentheses is the fault that shows first. -/
theorem firstFault_replicate_open (n : Nat) :
    FirstFault (visible (List.replicate (n + 1) '(')) ⟨.unmatchedParenthesis, 0⟩ := by
  apply Excerpt.firstFault_of_outcome_error
  rw [Excerpt.read_visible_replicate_open]

/-- **Of too many open parentheses the wrong one is reported.**  Of `2 ^ 31` opening parentheses
the first is the fault that shows first, and the second is reported. -/
theorem deep_fault_is_misreported :
    ∃ pattern, pattern.toList = List.replicate counterLimit '(' ∧
      FirstFault (visible pattern.toList) ⟨.unmatchedParenthesis, 0⟩ ∧
      Tree.ofPattern pattern = .error ⟨⟨.unmatchedParenthesis, 1⟩, pattern⟩ := by
  obtain ⟨n, hn⟩ : ∃ n, counterLimit = n + 1 := ⟨counterLimit - 1, rfl⟩
  refine ⟨String.ofList (List.replicate counterLimit '('), String.toList_ofList, ?_, ?_⟩
  · rw [String.toList_ofList, hn]
    exact firstFault_replicate_open n
  · apply Tree.ofPattern_of_replicate_open
    simp only [String.toList_ofList, List.prefix_rfl]

end PatternAutomata
