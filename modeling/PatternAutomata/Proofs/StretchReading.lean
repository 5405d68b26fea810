import PatternAutomata.Pattern.Nesting
import PatternAutomata.Pattern.Reading

/-!
# Reading a stretch by itself

A pattern is read in place, with a cursor and a bound, and the content of a group
is looked for by its closer.  Nothing of that depends on where a stretch stands.
`Excerpt.read` reads a list of characters on its own: it cuts the content of a
group out of what follows the parenthesis, and it counts positions from the
beginning of the list.

How the content is cut out is left open.  `Excerpt.within_eq_place` says that
reading a stretch in place is reading it by itself, with contents as the search for
a closer finds them (`counted`), and putting the outcome back (`Excerpt.place`).
While a word can count the open parentheses, these are the contents that the
parentheses give (`visible`), and it is read the same (`Excerpt.read_counted_eq`).
What holds of such readings is proved about lists from then on, by induction on
`Excerpt.read`.
-/

namespace PatternAutomata

/-- The characters of a pattern from `pos` up to `stop`. -/
def stretch (cs : Array Char) (pos stop : Nat) : List Char :=
  (cs.toList.take stop).drop pos

section Stretch

variable {cs : Array Char} {pos stop : Nat}

theorem length_stretch (hstop : stop ≤ cs.size) : (stretch cs pos stop).length = stop - pos := by
  simp [stretch, hstop]

theorem stretch_eq_nil (h : stop ≤ pos) : stretch cs pos stop = [] := by
  simp [stretch]
  omega

theorem stretch_eq_cons (hstop : stop ≤ cs.size) (h : pos < stop) :
    stretch cs pos stop = cs[pos] :: stretch cs (pos + 1) stop := by
  have hpos : pos < (cs.toList.take stop).length := by
    simp
    omega
  rw [stretch, List.drop_eq_getElem_cons hpos]
  simp [stretch]

theorem drop_stretch (n : Nat) : (stretch cs pos stop).drop n = stretch cs (pos + n) stop := by
  simp [stretch]

theorem take_stretch {n : Nat} (h : pos + n ≤ stop) :
    (stretch cs pos stop).take n = stretch cs pos (pos + n) := by
  simp [stretch, List.take_drop, List.take_take, Nat.min_eq_left h]

/-- A stretch and the one behind it are a longer one. -/
theorem stretch_append {mid : Nat} (hfront : pos ≤ mid) (hback : mid ≤ stop) :
    stretch cs pos mid ++ stretch cs mid stop = stretch cs pos stop := by
  obtain ⟨n, rfl⟩ := Nat.exists_eq_add_of_le hfront
  rw [← take_stretch hback, ← drop_stretch, List.take_append_drop]

end Stretch

section Closer

variable {cs : Array Char} {stop opener pos : Nat} {hstop : stop ≤ cs.size}
  {hafter : opener < pos}

/-- The closer of a parenthesis stands behind what the search passes over of what follows
the parenthesis, if anything stands there. -/
theorem map_val_closer? {word : Int32} {depth : Nat} (hword : word = Int32.ofNat (depth + 1))
    (hdepth : depth + 1 < counterLimit) :
    (closer? cs stop hstop opener pos hafter word).map Subtype.val =
      if (countedFrom depth (stretch cs pos stop)).length < stop - pos then
        some (pos + (countedFrom depth (stretch cs pos stop)).length)
      else none := by
  fun_induction closer? cs stop hstop opener pos hafter word generalizing depth with
  | case1 pos hafter word h hmore ih =>
      subst hword
      rcases openAfter_cases cs[pos] hdepth with ⟨deeper, hdeeper, hstep, hpassed⟩ | ⟨hends, -⟩
      · rw [ih hstep hdeeper, stretch_eq_cons hstop h, hpassed, List.length_cons]
        grind
      · exact absurd hmore hends
  | case2 pos hafter word h hends =>
      subst hword
      rcases openAfter_cases cs[pos] hdepth with ⟨deeper, hdeeper, hstep, -⟩ | ⟨-, hpassed⟩
      · rw [hstep, Counter.ofNat_pos_iff hdeeper] at hends
        exact absurd (Nat.succ_pos deeper) hends
      · rw [stretch_eq_cons hstop h, hpassed]
        simp
        omega
  | case3 pos hafter word h =>
      have hdone : stop - pos = 0 := by omega
      simp [hdone]

/-- A search begins behind the parenthesis, which is open. -/
theorem map_val_closer?_one (cs : Array Char) (stop : Nat) (hstop : stop ≤ cs.size)
    (opener pos : Nat) (hafter : opener < pos) :
    (closer? cs stop hstop opener pos hafter 1).map Subtype.val =
      if (counted (stretch cs pos stop)).length < stop - pos then
        some (pos + (counted (stretch cs pos stop)).length)
      else none :=
  map_val_closer? rfl (by decide)

section Found

variable {found : { close : Nat // opener < close ∧ close < stop }}

/-- What stands between a parenthesis and the closer that is found is what the search has
passed over. -/
theorem stretch_of_closer? (hfound : closer? cs stop hstop opener pos hafter 1 = some found) :
    found.val = pos + (counted (stretch cs pos stop)).length ∧
      stretch cs pos found.val = counted (stretch cs pos stop) := by
  have hval := map_val_closer?_one cs stop hstop opener pos hafter
  rw [hfound, Option.map_some] at hval
  split at hval
  · have hclose : found.val = pos + (counted (stretch cs pos stop)).length :=
      Option.some.inj hval
    have hpos : pos + (counted (stretch cs pos stop)).length ≤ stop := by
      have hbefore := found.property.2
      omega
    refine ⟨hclose, ?_⟩
    rw [hclose, ← take_stretch hpos]
    exact (List.prefix_iff_eq_take.mp (counted_isPrefix _)).symm
  · cases hval

theorem length_counted_lt_of_closer?
    (hfound : closer? cs stop hstop opener pos hafter 1 = some found) :
    (counted (stretch cs pos stop)).length < (stretch cs pos stop).length := by
  obtain ⟨hclose, -⟩ := stretch_of_closer? hfound
  have hbefore := found.property.2
  rw [length_stretch hstop]
  omega

end Found

/-- Without a closer the search passes over all that follows. -/
theorem not_lt_of_closer?_eq_none (hnone : closer? cs stop hstop opener pos hafter 1 = none) :
    ¬ (counted (stretch cs pos stop)).length < (stretch cs pos stop).length := by
  have hval := map_val_closer?_one cs stop hstop opener pos hafter
  rw [hnone, Option.map_none] at hval
  rw [length_stretch hstop]
  intro hlt
  rw [if_pos hlt] at hval
  cases hval

end Closer

/-- What reading a stretch by itself comes to.  Positions count from its start. -/
structure Excerpt where
  strays : List Nat
  outcome : Except Defect (Option Tree)

namespace Excerpt

/-- An excerpt whose positions count from `n` characters earlier. -/
def shift (n : Nat) (x : Excerpt) : Excerpt :=
  ⟨x.strays.map (n + ·),
    match x.outcome with
    | .ok tree => .ok tree
    | .error defect => .error ⟨defect.flaw, n + defect.position⟩⟩

/-- An excerpt, and behind it what is made of its tree. -/
def andThen (x : Excerpt) (next : Option Tree → Excerpt) : Excerpt :=
  match x.outcome with
  | .error defect => ⟨x.strays, .error defect⟩
  | .ok tree => ⟨x.strays ++ (next tree).strays, (next tree).outcome⟩

/-- Reads a stretch by itself, where `branch` has been read before it.  The content of a
group is what `content` cuts out of what follows the parenthesis, and is read on its own. -/
def read (content : List Char → List Char) (branch : Option Tree) : List Char → Excerpt
  | [] => ⟨[], .ok branch⟩
  | c :: rest =>
    if c = '(' then
      if _closed : (content rest).length < rest.length then
        ((read content none (content rest)).shift 1).andThen fun
          | none => ⟨[], .error ⟨.emptyExpression, 0⟩⟩
          | some inner =>
            (read content (some (Tree.append branch (.group inner)))
              (rest.drop ((content rest).length + 1))).shift ((content rest).length + 2)
      else
        ⟨[], .error ⟨.unmatchedParenthesis, 0⟩⟩
    else if c = ')' then
      ⟨[0], .ok branch⟩
    else if c = '|' then
      ((read content none rest).shift 1).andThen fun right =>
        match branch, right with
        | some left, some right => ⟨[], .ok (some (.union left right))⟩
        | _, _ => ⟨[], .error ⟨.emptyExpression, 0⟩⟩
    else if c = '*' then
      match Tree.repeatLast branch with
      | none => ⟨[], .error ⟨.nothingToRepeat, 0⟩⟩
      | some branch => (read content (some branch) rest).shift 1
    else
      (read content (some (Tree.append branch (.char c))) rest).shift 1
  termination_by cs => cs.length
  decreasing_by
    all_goals simp only [List.length_cons, List.length_drop]
    all_goals omega

/-- An excerpt put at `pos` into the pattern it was taken from, to be read up to `stop`. -/
def place (cs : Array Char) (pos stop : Nat) (x : Excerpt) : Reading :=
  ⟨x.strays.map fun i => ⟨pos + i, String.ofList (cs.toList.drop (pos + i + 1))⟩,
    match x.outcome with
    | .ok tree => .ok (tree, stop)
    | .error defect => .error ⟨defect.flaw, pos + defect.position⟩⟩

section Equations

variable {content : List Char → List Char} {branch : Option Tree} {rest : List Char}

@[simp] theorem read_nil : read content branch [] = ⟨[], .ok branch⟩ := by
  rw [read]

theorem read_open (hclosed : (content rest).length < rest.length) :
    read content branch ('(' :: rest) =
      ((read content none (content rest)).shift 1).andThen fun
        | none => ⟨[], .error ⟨.emptyExpression, 0⟩⟩
        | some inner =>
          (read content (some (Tree.append branch (.group inner)))
            (rest.drop ((content rest).length + 1))).shift ((content rest).length + 2) := by
  rw [read, if_pos rfl, dif_pos hclosed]

theorem read_open_unclosed (hopen : ¬ (content rest).length < rest.length) :
    read content branch ('(' :: rest) = ⟨[], .error ⟨.unmatchedParenthesis, 0⟩⟩ := by
  rw [read, if_pos rfl, dif_neg hopen]

@[simp] theorem read_closer : read content branch (')' :: rest) = ⟨[0], .ok branch⟩ := by
  rw [read, if_neg (by decide), if_pos rfl]

theorem read_bar :
    read content branch ('|' :: rest) =
      ((read content none rest).shift 1).andThen fun right =>
        match branch, right with
        | some left, some right => ⟨[], .ok (some (.union left right))⟩
        | _, _ => ⟨[], .error ⟨.emptyExpression, 0⟩⟩ := by
  rw [read, if_neg (by decide), if_neg (by decide), if_pos rfl]

theorem read_star_none (hstar : Tree.repeatLast branch = none) :
    read content branch ('*' :: rest) = ⟨[], .error ⟨.nothingToRepeat, 0⟩⟩ := by
  rw [read, if_neg (by decide), if_neg (by decide), if_neg (by decide), if_pos rfl, hstar]

theorem read_star {repeated : Tree} (hstar : Tree.repeatLast branch = some repeated) :
    read content branch ('*' :: rest) = (read content (some repeated) rest).shift 1 := by
  rw [read, if_neg (by decide), if_neg (by decide), if_neg (by decide), if_pos rfl, hstar]

theorem read_char {c : Char} (hopen : c ≠ '(') (hclose : c ≠ ')') (hbar : c ≠ '|')
    (hstar : c ≠ '*') :
    read content branch (c :: rest) =
      (read content (some (Tree.append branch (.char c))) rest).shift 1 := by
  rw [read, if_neg hopen, if_neg hclose, if_neg hbar, if_neg hstar]

end Equations

theorem place_shift (cs : Array Char) (pos stop n : Nat) (x : Excerpt) :
    (x.shift n).place cs pos stop = x.place cs (pos + n) stop := by
  obtain ⟨strays, defect | tree⟩ := x
  · simp [place, shift, Nat.add_assoc]
  · simp [place, shift, Nat.add_assoc]

theorem place_andThen (cs : Array Char) (pos stop mid : Nat) (x : Excerpt)
    (next : Option Tree → Excerpt) :
    (x.andThen next).place cs pos stop =
      match x.place cs pos mid with
      | ⟨strays, .error defect⟩ => ⟨strays, .error defect⟩
      | ⟨strays, .ok (tree, _)⟩ =>
        ⟨strays ++ ((next tree).place cs pos stop).strays,
          ((next tree).place cs pos stop).outcome⟩ := by
  obtain ⟨strays, defect | tree⟩ := x
  · simp [place, andThen]
  · simp [place, andThen]

theorem eq_of_place_ok {cs : Array Char} {pos stop next : Nat} {x : Excerpt} {tree : Option Tree}
    (hok : (x.place cs pos stop).outcome = .ok (tree, next)) : next = stop := by
  obtain ⟨strays, defect | tree⟩ := x
  · cases hok
  · cases hok
    rfl

/-- **Reading in place is reading a stretch by itself**, with positions moved to where
the stretch begins.  The contents of groups are as the search for a closer finds them. -/
theorem within_eq_place (cs : Array Char) (stop : Nat) (hstop : stop ≤ cs.size) (pos : Nat)
    (branch : Option Tree) (hpos : pos ≤ stop) :
    Reading.within cs stop hstop pos branch =
      (read counted branch (stretch cs pos stop)).place cs pos stop := by
  fun_induction Reading.within cs stop hstop pos branch with
  | case1 stop hstop pos branch h hopen hnone =>
      rw [stretch_eq_cons hstop h, hopen, read_open_unclosed (not_lt_of_closer?_eq_none hnone)]
      simp [place]
  | case2 stop hstop pos branch h hopen close hbetween hfound strays defect hinner ih =>
      obtain ⟨hclose, hcontent⟩ := stretch_of_closer? hfound
      have hclosed := length_counted_lt_of_closer? hfound
      rw [stretch_eq_cons hstop h, hopen, read_open hclosed, place_andThen cs pos stop close,
        place_shift, ← hcontent, ← ih (by omega), hinner]
  | case3 stop hstop pos branch h hopen close hbetween hfound strays _ hinner ih =>
      obtain ⟨hclose, hcontent⟩ := stretch_of_closer? hfound
      have hclosed := length_counted_lt_of_closer? hfound
      rw [stretch_eq_cons hstop h, hopen, read_open hclosed, place_andThen cs pos stop close,
        place_shift, ← hcontent, ← ih (by omega), hinner]
      simp [place]
  | case4 stop hstop pos branch h hopen close hbetween hfound strays inner _ hinner later outcome
      hlater ih ih' =>
      obtain ⟨hclose, hcontent⟩ := stretch_of_closer? hfound
      have hclosed := length_counted_lt_of_closer? hfound
      have hbehind : pos + ((counted (stretch cs (pos + 1) stop)).length + 2) = close + 1 := by
        dsimp only at hclose
        omega
      have hdrop : (stretch cs (pos + 1) stop).drop
          ((counted (stretch cs (pos + 1) stop)).length + 1) = stretch cs (close + 1) stop := by
        rw [drop_stretch]
        congr 1
        omega
      rw [stretch_eq_cons hstop h, hopen, read_open hclosed, place_andThen cs pos stop close,
        place_shift, ← hcontent, ← ih (by omega), hinner]
      simp only [place_shift, hcontent, hbehind, hdrop]
      rw [← ih' (by omega), hlater]
  | case5 stop hstop pos branch h hopen hclose =>
      rw [stretch_eq_cons hstop h, hclose, read_closer]
      simp [place]
  | case6 stop hstop pos branch h hopen hclose hbar strays defect hright ih =>
      rw [stretch_eq_cons hstop h, hbar, read_bar, place_andThen cs pos stop stop, place_shift,
        ← ih h, hright]
  | case7 stop hstop pos h hopen hclose hbar left strays right next hright ih =>
      rw [stretch_eq_cons hstop h, hbar, read_bar, place_andThen cs pos stop stop, place_shift,
        ← ih h, hright]
      have hnext := (congrArg Reading.outcome hright).symm.trans (congrArg Reading.outcome (ih h))
      have hend : next = stop := eq_of_place_ok hnext.symm
      simp [place, hend]
  | case8 stop hstop pos branch h hopen hclose hbar strays found hright hmissing ih =>
      rw [stretch_eq_cons hstop h, hbar, read_bar, place_andThen cs pos stop stop, place_shift,
        ← ih h, hright]
      obtain ⟨right, next⟩ := found
      cases branch with
      | none => simp [place]
      | some left =>
          cases right with
          | none => simp [place]
          | some right => exact (hmissing left right next rfl rfl).elim
  | case9 stop hstop pos branch h hopen hclose hbar hstar hnone =>
      rw [stretch_eq_cons hstop h, hstar, read_star_none hnone]
      simp [place]
  | case10 stop hstop pos branch h hopen hclose hbar hstar repeated hrepeated ih =>
      rw [stretch_eq_cons hstop h, hstar, read_star hrepeated, place_shift, ih h]
  | case11 stop hstop pos branch h hopen hclose hbar hstar ih =>
      rw [stretch_eq_cons hstop h, read_char hopen hclose hbar hstar, place_shift, ih h]
  | case12 stop hstop pos branch h =>
      have hdone : pos = stop := by omega
      rw [stretch_eq_nil (by omega), read_nil]
      simp [place, hdone]

/-- A shift does not change what is read. -/
@[simp] theorem outcome_shift_eq_ok {x : Excerpt} {n : Nat} {tree : Option Tree} :
    (x.shift n).outcome = .ok tree ↔ x.outcome = .ok tree := by
  obtain ⟨strays, defect | found⟩ := x
  · simp [shift]
  · simp [shift]

theorem outcome_andThen_eq_ok {x : Excerpt} {next : Option Tree → Excerpt} {tree : Option Tree} :
    (x.andThen next).outcome = .ok tree ↔
      ∃ found, x.outcome = .ok found ∧ (next found).outcome = .ok tree := by
  obtain ⟨strays, defect | found⟩ := x
  · simp [andThen]
  · simp [andThen]

/-- A shift moves the defect. -/
theorem outcome_shift_of_error {x : Excerpt} {n : Nat} {defect : Defect}
    (herror : x.outcome = .error defect) :
    (x.shift n).outcome = .error ⟨defect.flaw, n + defect.position⟩ := by
  rw [shift, herror]

theorem outcome_andThen_of_ok {x : Excerpt} {next : Option Tree → Excerpt} {tree : Option Tree}
    (hok : x.outcome = .ok tree) : (x.andThen next).outcome = (next tree).outcome := by
  rw [andThen, hok]

/-- Behind a defect nothing is read. -/
theorem outcome_andThen_of_error {x : Excerpt} {next : Option Tree → Excerpt} {defect : Defect}
    (herror : x.outcome = .error defect) : (x.andThen next).outcome = .error defect := by
  rw [andThen, herror]

theorem outcome_shift_congr {x y : Excerpt} (n : Nat) (hsame : x.outcome = y.outcome) :
    (x.shift n).outcome = (y.shift n).outcome := by
  rw [shift, shift, hsame]

theorem outcome_andThen_congr {x y : Excerpt} {next next' : Option Tree → Excerpt}
    (hsame : x.outcome = y.outcome) (hnext : ∀ tree, (next tree).outcome = (next' tree).outcome) :
    (x.andThen next).outcome = (y.andThen next').outcome := by
  rw [andThen, andThen, hsame]
  cases y.outcome with
  | error defect => rfl
  | ok tree => exact hnext tree

theorem andThen_of_error {x : Excerpt} {next : Option Tree → Excerpt} {defect : Defect}
    (herror : x.outcome = .error defect) : x.andThen next = x := by
  obtain ⟨strays, outcome⟩ := x
  cases herror
  rfl

theorem andThen_of_ok {x : Excerpt} {next : Option Tree → Excerpt} {tree : Option Tree}
    (hok : x.outcome = .ok tree) :
    x.andThen next = ⟨x.strays ++ (next tree).strays, (next tree).outcome⟩ := by
  rw [andThen, hok]

theorem strays_shift_eq_nil {x : Excerpt} {n : Nat} (hnone : x.strays = []) :
    (x.shift n).strays = [] := by
  rw [shift, hnone]
  rfl

theorem strays_andThen {x : Excerpt} {next : Option Tree → Excerpt}
    (hnext : ∀ tree, x.outcome = .ok tree → (next tree).strays = []) :
    (x.andThen next).strays = x.strays := by
  cases hread : x.outcome with
  | error defect => rw [andThen_of_error hread]
  | ok tree => rw [andThen_of_ok hread, hnext tree hread, List.append_nil]

/-- **What does not count has no part in the outcome.** -/
theorem outcome_read_visible (branch : Option Tree) (cs : List Char) :
    (read visible branch (visible cs)).outcome = (read visible branch cs).outcome := by
  induction branch, cs using read.induct visible with
  | case1 branch => rfl
  | case2 branch rest hclosed _ ihafter =>
      have hcontent := visible_visible_append hclosed
        (visible (rest.drop ((visible rest).length + 1)))
      rw [visible_open hclosed, read_open hclosed, read_open (by rw [hcontent]; simp), hcontent]
      apply outcome_andThen_congr rfl
      intro found
      cases found with
      | none => rfl
      | some inner =>
          apply outcome_shift_congr
          simpa using ihafter inner
  | case3 branch rest hopen => rw [visible_open_unclosed hopen]
  | case4 branch rest _ => rw [visible_closer, read_nil, read_closer]
  | case5 branch rest hopen hclose ih =>
      rw [visible_cons rest hopen hclose, read_bar, read_bar]
      exact outcome_andThen_congr (outcome_shift_congr 1 ih) fun _ => rfl
  | case6 branch rest hnone hopen hclose _ =>
      rw [visible_cons rest hopen hclose, read_star_none hnone, read_star_none hnone]
  | case7 branch rest repeated hrepeat hopen hclose _ ih =>
      rw [visible_cons rest hopen hclose, read_star hrepeat, read_star hrepeat]
      exact outcome_shift_congr 1 ih
  | case8 branch c rest hopen hclose hbar hstar ih =>
      rw [visible_cons rest hopen hclose, read_char hopen hclose hbar hstar,
        read_char hopen hclose hbar hstar]
      exact outcome_shift_congr 1 ih

section Group

variable {content : List Char → List Char} {branch : Option Tree} {rest : List Char}
  (hclosed : (content rest).length < rest.length)

include hclosed

/-- A group whose content has a defect ends a reading with it. -/
theorem read_open_of_error {defect : Defect}
    (herror : read content none (content rest) = ⟨[], .error defect⟩) :
    read content branch ('(' :: rest) = ⟨[], .error ⟨defect.flaw, 1 + defect.position⟩⟩ := by
  rw [read_open hclosed, herror]
  rfl

theorem read_open_of_none (hnone : read content none (content rest) = ⟨[], .ok none⟩) :
    read content branch ('(' :: rest) = ⟨[], .error ⟨.emptyExpression, 0⟩⟩ := by
  rw [read_open hclosed, hnone]
  rfl

/-- Behind a group the reading goes on with the group at the end of the branch. -/
theorem read_open_of_some {inner : Tree}
    (hsome : read content none (content rest) = ⟨[], .ok (some inner)⟩) :
    read content branch ('(' :: rest) =
      (read content (some (Tree.append branch (.group inner)))
        (rest.drop ((content rest).length + 1))).shift ((content rest).length + 2) := by
  rw [read_open hclosed, hsome]
  rfl

end Group

/-- No closer is met where all that is read counts. -/
theorem strays_read_of_counts {branch : Option Tree} {cs : List Char} (hcounts : visible cs = cs) :
    (read visible branch cs).strays = [] := by
  induction branch, cs using read.induct visible with
  | case1 branch => rw [read_nil]
  | case2 branch rest hclosed ihcontent ihafter =>
      have hafter : visible (rest.drop ((visible rest).length + 1)) =
          rest.drop ((visible rest).length + 1) := by
        rw [visible_open hclosed] at hcounts
        have hsame := (List.cons.inj hcounts).2.trans (visible_append_drop hclosed).symm
        exact (List.cons.inj (List.append_cancel_left hsame)).2
      rw [read_open hclosed, strays_andThen]
      · exact strays_shift_eq_nil (ihcontent (visible_visible rest))
      · intro found _
        cases found with
        | none => rfl
        | some inner => exact strays_shift_eq_nil (ihafter inner hafter)
  | case3 branch rest hopen => rw [read_open_unclosed hopen]
  | case4 branch rest _ =>
      rw [visible_closer] at hcounts
      cases hcounts
  | case5 branch rest hopen hclose ih =>
      rw [visible_cons rest hopen hclose] at hcounts
      rw [read_bar, strays_andThen]
      · exact strays_shift_eq_nil (ih (List.cons.inj hcounts).2)
      · intro right _
        cases branch <;> cases right <;> rfl
  | case6 branch rest hnone hopen hclose _ => rw [read_star_none hnone]
  | case7 branch rest repeated hrepeat hopen hclose _ ih =>
      rw [visible_cons rest hopen hclose] at hcounts
      rw [read_star hrepeat]
      exact strays_shift_eq_nil (ih (List.cons.inj hcounts).2)
  | case8 branch c rest hopen hclose hbar hstar ih =>
      rw [visible_cons rest hopen hclose] at hcounts
      rw [read_char hopen hclose hbar hstar]
      exact strays_shift_eq_nil (ih (List.cons.inj hcounts).2)

/-- **While a word can count the open parentheses**, a stretch is read with the contents that
the parentheses give. -/
theorem read_counted_eq {branch : Option Tree} {cs : List Char}
    (hshallow : nesting cs < counterLimit) : read counted branch cs = read visible branch cs := by
  induction branch, cs using read.induct visible with
  | case1 branch => rw [read_nil, read_nil]
  | case2 branch rest hclosed ihcontent ihafter =>
      rw [nesting_open hclosed] at hshallow
      have hcontent : counted rest = visible rest := counted_eq_visible (by omega)
      rw [read_open (hcontent ▸ hclosed), read_open hclosed, hcontent,
        ihcontent (by rw [nesting_visible]; omega)]
      congr 1
      funext found
      cases found with
      | none => rfl
      | some inner => exact congrArg (shift _) (ihafter inner (by omega))
  | case3 branch rest hopen =>
      rw [nesting_open_unclosed hopen] at hshallow
      rw [read_open_unclosed (counted_eq_visible hshallow ▸ hopen), read_open_unclosed hopen]
  | case4 branch rest _ => rw [read_closer, read_closer]
  | case5 branch rest hopen hclose ih =>
      rw [nesting_cons rest hopen hclose] at hshallow
      rw [read_bar, read_bar, ih hshallow]
  | case6 branch rest hnone _ _ _ => rw [read_star_none hnone, read_star_none hnone]
  | case7 branch rest repeated hrepeat hopen hclose _ ih =>
      rw [nesting_cons rest hopen hclose] at hshallow
      rw [read_star hrepeat, read_star hrepeat, ih hshallow]
  | case8 branch c rest hopen hclose hbar hstar ih =>
      rw [nesting_cons rest hopen hclose] at hshallow
      rw [read_char hopen hclose hbar hstar, read_char hopen hclose hbar hstar, ih hshallow]

end Excerpt

/-- A pattern is read as the stretch of all its characters. -/
theorem Reading.ofPattern_eq_place (pattern : String) :
    Reading.ofPattern pattern =
      (Excerpt.read counted none pattern.toList).place pattern.toList.toArray 0
        pattern.toList.length := by
  have hall : stretch pattern.toList.toArray 0 pattern.toList.length = pattern.toList := by
    simp [stretch]
  have hread := Excerpt.within_eq_place pattern.toList.toArray pattern.toList.length
    (by simp) 0 none (Nat.zero_le _)
  rw [hall] at hread
  exact hread

/-- The tree of a pattern, or its defect, is what its characters are read as. -/
theorem Tree.ofPattern_eq (pattern : String) :
    Tree.ofPattern pattern =
      match (Excerpt.read counted none pattern.toList).outcome with
      | .ok tree => .ok tree
      | .error defect => .error ⟨defect, pattern⟩ := by
  rw [Tree.ofPattern, Reading.ofPattern_eq_place]
  obtain ⟨strays, defect | tree⟩ := Excerpt.read counted none pattern.toList
  · simp [Excerpt.place, Reading.result]
  · simp [Excerpt.place, Reading.result]

theorem Tree.ofPattern_eq_ok_iff (pattern : String) (tree : Option Tree) :
    Tree.ofPattern pattern = .ok tree ↔
      (Excerpt.read counted none pattern.toList).outcome = .ok tree := by
  rw [Tree.ofPattern_eq]
  cases (Excerpt.read counted none pattern.toList).outcome with
  | error defect => simp
  | ok found => simp

theorem Tree.ofPattern_eq_error_iff (pattern : String) (e : PatternError) :
    Tree.ofPattern pattern = .error e ↔
      (Excerpt.read counted none pattern.toList).outcome = .error e.toDefect ∧
        e.pattern = pattern := by
  rw [Tree.ofPattern_eq]
  cases (Excerpt.read counted none pattern.toList).outcome with
  | ok tree => simp
  | error defect =>
      obtain ⟨found, shown⟩ := e
      simp [eq_comm]

end PatternAutomata
