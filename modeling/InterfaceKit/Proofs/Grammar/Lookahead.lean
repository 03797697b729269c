import InterfaceKit.Proofs.Grammar.First
import Mathlib.Algebra.GroupWithZero.Nat

/-!
# Lookahead

For each rule, the tokens that it can begin with and the tokens that can follow it. The tables are
checked against the productions: the first by the remainders behind a token, the second by
`Form.clear`, which also says that one token is enough wherever the parser decides by one. There is
a single exception, the modifier of an operation, which may as well belong to the property that
follows.
-/
namespace InterfaceKit.Grammar
open Lexical

def typeFirst : List Kind :=
  [.boolWord,.intWord,.realWord,.stringWord,.varWord,.identifier,.listWord,.mapWord,.modelWord]

def Rule.first : Rule → List Kind
  | .document | .header | .moduleHead => [.docComment,.tagLine,.moduleWord]
  | .importLine => [.importWord]
  | .definition => [.docComment,.tagLine,.interfaceWord,.structWord,.enumWord,.flagWord]
  | .interface => [.docComment,.tagLine,.interfaceWord]
  | .interfaceMember =>
    [.docComment,.tagLine,.voidWord,.readonlyWord,.constWord,.signalWord] ++ typeFirst
  | .operation => [.docComment,.tagLine,.voidWord] ++ typeFirst
  | .operationModifier => [.constWord]
  | .signal => [.docComment,.tagLine,.signalWord]
  | .property => [.docComment,.tagLine,.readonlyWord,.constWord] ++ typeFirst
  | .propertyModifier => [.readonlyWord,.constWord]
  | .parameter | .type => typeFirst
  | .tag => [.tagLine]
  | .tagAttribute | .complexType => [.identifier]
  | .primitiveType => [.boolWord,.intWord,.realWord,.stringWord,.varWord]
  | .listType => [.listWord]
  | .mapType => [.mapWord]
  | .modelType => [.modelWord]
  | .struct => [.docComment,.tagLine,.structWord]
  | .structField => [.docComment,.tagLine] ++ typeFirst
  | .enum => [.docComment,.tagLine,.enumWord,.flagWord]
  | .enumKind => [.enumWord,.flagWord]
  | .enumMember => [.docComment,.tagLine,.identifier]
  | .integer => [.integer,.hexInteger]

def Item.first : Item → List Kind
  | .token k => [k]
  | .rule r => r.first

namespace Form

def first (f : Form) : List Kind := f.leading.flatMap Item.first

@[simp] theorem first_nil : first [] = [] := rfl

@[simp] theorem first_one (x : Item) (f : Form) : first (.one x :: f) = x.first := by
  simp [first,leading]

end Form

/-- The table agrees with itself: a rule begins as its production does. -/
theorem Rule.first_production (r : Rule) :
    r.production.first ⊆ r.first ∧ r.first ⊆ r.production.first := by
  cases r <;> decide

theorem Form.canStart_leading (f : Form) (k : Kind) :
    f.canStart k = f.leading.any fun x => Form.canStart [.one x] k := by
  induction f with
  | nil => rfl
  | cons p f ih =>
    cases p with
    | one x => simp [leading,canStart_one k x f]
    | maybe xs =>
      rw [canStart_maybe,ih]
      cases xs with
      | nil => rfl
      | cons x xs =>
        have hx : canStart [.maybe (x :: xs)] k = canStart [.one x] k := by
          rw [← canStart_one k x (xs.map .one)]
          simp [canStart]
        simp [leading,hx]
    | many x => simp [leading,canStart_many,ih]
    | choice xs => rw [canStart_choice]; rfl

theorem Form.canStart_token (k k' : Kind) :
    Form.canStart [.one (.token k')] k = true ↔ k ∈ (Item.token k').first := by
  by_cases h : k' = k
  · simp [canStart,Item.first,h]
  · simp [canStart,Item.first,h,Ne.symm h]

/-- By induction on the height, since a rule begins with lower items. -/
theorem Item.canStart_iff (k : Kind) (n : Nat) : ∀ x : Item, x.height ≤ n →
    (Form.canStart [.one x] k = true ↔ k ∈ x.first) := by
  induction n with
  | zero =>
    intro x hx
    cases x with
    | token k' => exact Form.canStart_token k k'
    | rule r =>
      have hr : r.height = 0 := Nat.le_zero.mp hx
      cases r <;> contradiction
  | succ n ih =>
    intro x hx
    cases x with
    | token k' => exact Form.canStart_token k k'
    | rule r =>
      have hp : Form.canStart [.one (.rule r)] k = r.production.canStart k := by
        simp [Form.canStart]
      have hl : ∀ y ∈ r.production.leading, (Form.canStart [.one y] k = true ↔ k ∈ y.first) := by
        intro y hy
        have hh := r.height_leading y hy
        simp only [Item.height] at hx
        exact ih y (by omega)
      rw [hp,Form.canStart_leading,List.any_eq_true]
      constructor
      · rintro ⟨y,hy,hk⟩
        exact r.first_production.1 (List.mem_flatMap.mpr ⟨y,hy,(hl y hy).mp hk⟩)
      · intro hk
        obtain ⟨y,hy,hk⟩ := List.mem_flatMap.mp (r.first_production.2 hk)
        exact ⟨y,hy,(hl y hy).mpr hk⟩

theorem Form.canStart_iff (f : Form) (k : Kind) : f.canStart k = true ↔ k ∈ f.first := by
  rw [canStart_leading,List.any_eq_true,first,List.mem_flatMap]
  constructor
  · rintro ⟨x,hx,hk⟩
    exact ⟨x,hx,(Item.canStart_iff k _ x (Nat.le_refl _)).mp hk⟩
  · rintro ⟨x,hx,hk⟩
    exact ⟨x,hx,(Item.canStart_iff k _ x (Nat.le_refl _)).mpr hk⟩

def Rule.follow : Rule → List Kind
  | .document | .tagAttribute => []
  | .header | .definition | .interface | .struct | .enum => Rule.definition.first
  | .moduleHead | .importLine => .importWord :: Rule.definition.first
  | .interfaceMember | .operation | .signal | .property => .rightBrace :: Rule.interfaceMember.first
  | .operationModifier => .semicolon :: .rightBrace :: Rule.interfaceMember.first
  | .propertyModifier => typeFirst
  | .parameter => .rightParen :: typeFirst
  | .tag =>
    [.tagLine,.moduleWord,.interfaceWord,.structWord,.enumWord,.flagWord,.voidWord,.signalWord,
      .readonlyWord,.constWord] ++ typeFirst
  | .type | .complexType | .primitiveType | .listType | .mapType | .modelType =>
    [.identifier,.greater]
  | .structField => .rightBrace :: Rule.structField.first
  | .enumKind => [.identifier]
  | .enumMember => .rightBrace :: Rule.enumMember.first
  | .integer => .comma :: .rightBrace :: Rule.enumMember.first

/-- The tokens that can come where `rest` is what is left of the rule `r`. -/
def Rule.upcoming (r : Rule) (rest : Form) : List Kind :=
  rest.first ++ if rest.mayEnd then r.follow else []

/-- What stands behind a member of an interface: more members, and the closing brace. -/
def behindMembers : Form := [.many (.rule .interfaceMember),oneToken .rightBrace]

/-- Inside the rule `r`, what follows an item may indeed follow it. Members stand only before other
members and the closing brace, and an operation stands only for a member. -/
def Item.fits (r : Rule) (rest : Form) : Item → Bool
  | .token _ => true
  | .rule q =>
    (r.upcoming rest).all (q.follow.contains ·)
      && (q ≠ .interfaceMember || rest.take 2 = behindMembers)
      && (q ≠ .operation || r = .interfaceMember && rest = [])

/-- The rows of items that are put in together. -/
def Item.allFit (r : Rule) (rest : Form) : List Item → Bool
  | [] => true
  | x :: xs => x.fits r (xs.map .one ++ rest) && allFit r rest xs

/-- How many steps the parser takes at most from a form to the next token. -/
def Form.climb : Form → Nat
  | [] => 0
  | .one x :: _ => 14 * x.height + 2
  | .maybe xs :: rest => max ((xs.take 1).map fun x => 14 * x.height + 2).sum (climb rest) + 1
  | .many x :: rest => max (14 * x.height + 1) (climb rest) + 1
  | .choice xs :: _ => ((xs.map fun x => 14 * x.height).max?).getD 0 + 2

def disjoint (ks ls : List Kind) : Bool := ks.all (!ls.contains ·)

/-- One token decides at every part of a form inside the rule `r`. At a choice that is not decided
by one token the form is the whole production. -/
def Form.clear (r : Rule) : Form → Bool
  | [] => true
  | .one x :: rest => x.fits r rest && clear r rest
  | .maybe xs :: rest =>
    (disjoint (first [.maybe xs]) (r.upcoming rest)
        || r = .operation && xs = [.rule .operationModifier] && rest = [maybeToken .semicolon])
      && Item.allFit r rest xs && climb (.maybe xs :: rest) ≤ 62 && clear r rest
  | .many x :: rest =>
    disjoint x.first (r.upcoming rest) && x.fits r (.many x :: rest)
      && climb (.many x :: rest) ≤ 62 && clear r rest
  | .choice xs :: rest =>
    (xs.Pairwise (fun x y => disjoint x.first y.first)
        || (r = .definition || r = .interfaceMember) && .choice xs :: rest = r.production)
      && xs.all (·.fits r rest) && climb (.choice xs :: rest) ≤ 62 && clear r rest

theorem Rule.production_clear (r : Rule) : r.production.clear r = true := by
  cases r <;> decide

theorem Rule.production_climb (r : Rule) : r.production.climb < 14 * r.height := by
  cases r <;> decide

namespace Form

theorem climb_row (xs : List Item) (rest : Form) :
    climb (xs.map .one ++ rest) < climb (.maybe xs :: rest) := by
  cases xs with
  | nil => simp [climb]
  | cons x xs => exact Nat.lt_succ_of_le (Nat.le_max_left _ _)

theorem climb_without (xs : List Item) (rest : Form) : climb rest < climb (.maybe xs :: rest) :=
  Nat.lt_succ_of_le (Nat.le_max_right _ _)

theorem climb_many (x : Item) (rest : Form) :
    14 * x.height + 1 < climb (.many x :: rest) ∧ climb rest < climb (.many x :: rest) :=
  ⟨Nat.lt_succ_of_le (Nat.le_max_left _ _),Nat.lt_succ_of_le (Nat.le_max_right _ _)⟩

theorem climb_choice {xs : List Item} {x : Item} (rest : Form) (hx : x ∈ xs) :
    14 * x.height + 2 ≤ climb (.choice xs :: rest) := by
  have hle : 14 * x.height ≤ ((xs.map fun y => 14 * y.height).max?).getD 0 :=
    List.le_max?_getD_of_mem (List.mem_map_of_mem hx)
  simp only [climb]
  omega

theorem clear_climb {r : Rule} {f : Form} (h : f.clear r = true) : f.climb ≤ 62 := by
  cases f with
  | nil => exact Nat.zero_le _
  | cons p f =>
    cases p with
    | one x =>
      have hx : x.height ≤ 4 := by
        cases x with
        | token k => exact Nat.zero_le _
        | rule q => exact q.height_le
      simp only [climb]
      omega
    | maybe xs | many x | choice xs =>
      simp only [clear,Bool.and_eq_true,decide_eq_true_eq] at h
      exact h.1.2

end Form

end InterfaceKit.Grammar
