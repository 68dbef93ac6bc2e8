import Mathlib.Data.Set.Card
import Chip8.Screen.Flip
import Chip8.Proofs.LitPoints

/-!
Flipping points in any order and any number of times. The mask of a column meets that column
alone, so a flip changes its own point and answers what it found there; after any list of flips a
point has changed exactly if it occurs in the list an odd number of times.
-/

namespace Chip8.Screen

/-! ### One flip -/

theorem mask_eq_column (x : Nat) : mask x = column x := by
  have highest : 0x8000000000000000#64 = BitVec.twoPow 64 63 := rfl
  apply BitVec.eq_of_getMsbD_eq
  intro other inside
  rw [getMsbD_column, mask, highest, BitVec.getMsbD_ushiftRight, BitVec.getMsbD_twoPow,
    Bool.eq_iff_iff]
  simp only [Bool.and_eq_true, Bool.not_eq_true', decide_eq_false_iff_not, decide_eq_true_iff]
  simp only [width]
  omega

private theorem and_mask_ne_zero (row : BitVec 64) {x : Nat} (inColumn : x < width) :
    (row &&& mask x != 0#64) = row.getMsbD x := by
  have place : 64 - 1 - x = 63 - x := rfl
  have inRow : x < 64 := inColumn
  have filled : BitVec.twoPow 64 (63 - x) ≠ 0#64 := by
    intro empty
    have bit := congrArg (fun bits => bits.getLsbD (63 - x)) empty
    simp at bit
    omega
  rw [mask_eq_column, column, if_pos inColumn, BitVec.and_twoPow, BitVec.getMsbD_eq_getLsbD, place,
    decide_eq_true inRow, Bool.true_and]
  cases row.getLsbD (63 - x) <;> simp [filled]

theorem flip_eq (screen : Screen) (point : Point) :
    screen.flip point = (screen.toggle point, screen.get point.x point.y) := by
  by_cases onScreen : point.x < width ∧ point.y < height
  · rw [flip, if_pos onScreen, and_mask_ne_zero _ onScreen.1, mask_eq_column]
    rfl
  · have untouched : screen.toggle point = screen := by
      apply ext_get
      intro x y inColumn inRow
      have elsewhere : ¬ (point.x = x ∧ point.y = y ∧ x < width ∧ y < height) := by
        rintro ⟨rfl, rfl, inside⟩
        exact onScreen inside
      rw [get_toggle, decide_eq_false elsewhere, Bool.xor_false]
    have dark : screen.get point.x point.y = false :=
      Bool.eq_false_iff.mpr fun lit => onScreen (onScreen_of_get lit)
    rw [flip, if_neg onScreen, untouched, dark]

/-! ### Flips in turn -/

theorem flipEach_cons (screen : Screen) (point : Point) (points : List Point) :
    screen.flipEach (point :: points) =
      (((screen.toggle point).flipEach points).1,
        screen.get point.x point.y :: ((screen.toggle point).flipEach points).2) := by
  rw [flipEach, flip_eq]

private theorem flipEach_fst (screen : Screen) (points : List Point) :
    (screen.flipEach points).1 = (screen.toggleEach points).1 := by
  induction points generalizing screen with
  | nil => rfl
  | cons point points ih =>
      rw [flipEach_cons]
      exact ih (screen.toggle point)

theorem get_flipEach (screen : Screen) (points : List Point) {x y : Nat}
    (inColumn : x < width) (inRow : y < height) :
    (screen.flipEach points).1.get x y =
      (screen.get x y ^^ decide (points.count ⟨x, y⟩ % 2 = 1)) := by
  rw [flipEach_fst, get_toggleEach screen points inColumn inRow]

/-- What the flips leave is known by how often each point of the screen occurs. -/
theorem flipEach_fst_eq (screen : Screen) {points others : List Point}
    (same : ∀ x y, x < width → y < height → points.count ⟨x, y⟩ = others.count ⟨x, y⟩) :
    (screen.flipEach points).1 = (screen.flipEach others).1 := by
  apply ext_get
  intro x y inColumn inRow
  rw [get_flipEach screen points inColumn inRow, get_flipEach screen others inColumn inRow,
    same x y inColumn inRow]

private theorem length_answers (screen : Screen) (points : List Point) :
    (screen.flipEach points).2.length = points.length := by
  induction points generalizing screen with
  | nil => rfl
  | cons point points ih =>
      rw [flipEach_cons, List.length_cons, List.length_cons, ih]

theorem answer_flipEach (screen : Screen) (earlier later : List Point) (point : Point) :
    (screen.flipEach (earlier ++ point :: later)).2[earlier.length]? =
      some ((screen.flipEach earlier).1.get point.x point.y) := by
  induction earlier generalizing screen with
  | nil =>
      rw [List.nil_append, flipEach_cons]
      rfl
  | cons first earlier ih =>
      rw [List.cons_append, flipEach_cons, flipEach_cons, List.length_cons,
        List.getElem?_cons_succ]
      exact ih (screen.toggle first)

/-! ### Counting lit points -/

private theorem isBlank_iff (screen : Screen) : screen.isBlank = true ↔ screen = blank := by
  rw [isBlank, List.all_eq_true]
  constructor
  · intro dark
    apply ext_get
    intro x y _ inRow
    have inside : y < 32 := inRow
    have empty : screen.rows[y] = 0#64 := by
      apply eq_of_beq
      exact dark _ (Vector.mem_toList_iff.mpr (Vector.getElem_mem inside))
    rw [get_blank, get, row, Vector.getElem?_eq_getElem inside, Option.getD_some, empty,
      BitVec.getMsbD_zero]
  · rintro rfl bits member
    rw [blank, Vector.toList_replicate, List.mem_replicate] at member
    exact beq_iff_eq.mpr member.2

theorem lit_eq_zero_iff (screen : Screen) : screen.lit = 0 ↔ screen = blank := by
  rw [← card_litPoints, Finset.card_eq_zero, Finset.eq_empty_iff_forall_notMem]
  constructor
  · intro none
    apply ext_get
    intro x y _ _
    rw [get_blank]
    exact Bool.eq_false_iff.mpr fun lit => none ⟨x, y⟩ (mem_litPoints_iff.mpr lit)
  · rintro rfl point member
    rw [mem_litPoints_iff, get_blank] at member
    cases member

private theorem ncard_lit (screen : Screen) :
    {point : Point | point.x < width ∧ point.y < height ∧
      screen.get point.x point.y = true}.ncard = screen.lit := by
  have same : {point : Point | point.x < width ∧ point.y < height ∧
      screen.get point.x point.y = true} = (screen.litPoints : Set Point) := by
    ext point
    rw [Finset.mem_coe, mem_litPoints_iff]
    constructor
    · rintro ⟨-, -, lit⟩
      exact lit
    · intro lit
      obtain ⟨inColumn, inRow⟩ := onScreen_of_get lit
      exact ⟨inColumn, inRow, lit⟩
  rw [same, Set.ncard_coe_finset, card_litPoints]

/-! ### The algebra of flips -/

/-- Points are flipped in turn, wherever they lie. A point of the screen has changed exactly if it
was flipped an odd number of times, so the order does not count and flips off the screen do
nothing, and each flip answers what those before it have left. The lit points are counted one by
one, and a screen without any is the blank one. -/
theorem flips_change_odd_points (screen : Screen) :
    (∀ points : List Point,
      (∀ x y, x < width → y < height →
        (screen.flipEach points).1.get x y =
          (screen.get x y ^^ decide (points.count ⟨x, y⟩ % 2 = 1))) ∧
      (∀ others : List Point, others.Perm points →
        (screen.flipEach others).1 = (screen.flipEach points).1) ∧
      (screen.flipEach (points.filter fun point => point.x < width ∧ point.y < height)).1 =
        (screen.flipEach points).1 ∧
      (screen.flipEach points).2.length = points.length ∧
      ∀ earlier point later, points = earlier ++ point :: later →
        (screen.flipEach points).2[earlier.length]? =
          some ((screen.flipEach earlier).1.get point.x point.y)) ∧
    (∀ point : Point, ¬ (point.x < width ∧ point.y < height) →
      screen.get point.x point.y = false ∧ screen.flip point = (screen, false)) ∧
    {point : Point | point.x < width ∧ point.y < height ∧
      screen.get point.x point.y = true}.ncard = screen.lit ∧
    (screen.isBlank = true ↔ screen.lit = 0) ∧
    (screen.lit = 0 ↔ screen = blank) := by
  refine ⟨?_, ?_, ncard_lit screen, ?_, lit_eq_zero_iff screen⟩
  · intro points
    refine ⟨fun x y inColumn inRow => get_flipEach screen points inColumn inRow, ?_, ?_,
      length_answers screen points, ?_⟩
    · intro others reordered
      exact flipEach_fst_eq screen fun x y _ _ => reordered.count ⟨x, y⟩
    · apply flipEach_fst_eq
      intro x y inColumn inRow
      exact List.count_filter (decide_eq_true ⟨inColumn, inRow⟩)
    · rintro earlier point later rfl
      exact answer_flipEach screen earlier later point
  · intro point outside
    exact ⟨Bool.eq_false_iff.mpr fun lit => outside (onScreen_of_get lit), if_neg outside⟩
  · rw [isBlank_iff, lit_eq_zero_iff]

def strewn : List Point :=
  [⟨63, 31⟩, ⟨2, 0⟩, ⟨63, 31⟩, ⟨64, 0⟩, ⟨2 ^ 64 - 1, 2 ^ 64 - 1⟩, ⟨63, 31⟩]

theorem strewn_changes_odd_points :
    strewn.reverse.Perm strewn ∧
    (blank.flipEach strewn.reverse).1 = (blank.flipEach strewn).1 ∧
    (blank.flipEach strewn).1.get 63 31 = true ∧ (blank.flipEach strewn).1.get 2 0 = true ∧
    (blank.flipEach strewn).1.get 0 0 = false ∧
    (blank.flipEach strewn).2[2]? = some true ∧ (blank.flipEach strewn).2[5]? = some false ∧
    blank.flip ⟨2 ^ 64 - 1, 2 ^ 64 - 1⟩ = (blank, false) := by
  obtain ⟨lists, outside, -⟩ := flips_change_odd_points blank
  obtain ⟨changed, reordered, -, -, answers⟩ := lists strewn
  have reversed : strewn.reverse.Perm strewn := List.reverse_perm strewn
  have twice := (lists [⟨63, 31⟩, ⟨2, 0⟩]).1 63 31 (by decide) (by decide)
  have even := (lists (strewn.take 5)).1 63 31 (by decide) (by decide)
  refine ⟨reversed, reordered _ reversed, ?_, ?_, ?_, ?_, ?_, (outside _ (by decide)).2⟩
  · rw [changed 63 31 (by decide) (by decide), get_blank]
    rfl
  · rw [changed 2 0 (by decide) (by decide), get_blank]
    rfl
  · rw [changed 0 0 (by decide) (by decide), get_blank]
    rfl
  · have answer := answers [⟨63, 31⟩, ⟨2, 0⟩] ⟨63, 31⟩ _ rfl
    rw [twice, get_blank] at answer
    exact answer
  · have answer := answers (strewn.take 5) ⟨63, 31⟩ [] rfl
    rw [even, get_blank] at answer
    exact answer

end Chip8.Screen
