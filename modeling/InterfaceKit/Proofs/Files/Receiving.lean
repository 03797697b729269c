import InterfaceKit.Proofs.Files.Delivery

/-!
# Folders that are left over do not matter

A document may fail after its folder has been made. The folder stays, and the next documents find
it. Two trees that differ in such folders only receive the same documents in the same way, unless
one of them finds something in its way.
-/
namespace InterfaceKit

/-- Something is in the way of a file or of a folder. -/
def Failure.isObstruction : Failure → Bool
  | .fileExists _ | .notDirectory _ | .isDirectory _ => true
  | _ => false

namespace Files

/-- A document as it was written out: where it belongs and what it says, unless this failed. -/
structure Manuscript where
  path : Except Failure Path
  text : Except Failure String
  preserve : Bool
  force : Bool

namespace Tree
variable {t u u' : Tree} {folder : Path}

/-- Makes the folder of a document if it is known where the document belongs. -/
def aim (t : Tree) (folder : Path) : Except Failure Path → Except Failure (Path × Location) × Tree
  | .error e => (.error e, t)
  | .ok p =>
    match t.prepare folder p with
    | .error e => (.error e, t)
    | .ok (place, t) => (.ok (p, place), t)

/-- Takes in a manuscript. Its folder is made before it is known whether there is a text. -/
def receive (t : Tree) (folder : Path) (m : Manuscript) : Except Failure Unit × Tree :=
  match t.aim folder m.path with
  | (.error e, t) => (.error e, t)
  | (.ok (path, place), t) =>
    match m.text with
    | .error e => (.error e, t)
    | .ok text =>
      if t.isFolder place then (.error (.isDirectory path.toString), t)
      else (.ok (), (t.deliver { path, text, preserve := m.preserve, force := m.force, place }).2)

/-! ## Two trees -/

variable {l : Location} {p : Path} {d : Delivery}

theorem Widens.isFolder_eq_false (h : t.Widens u) (hl : u.isFolder l = false) :
    t.isFolder l = false := by
  cases ht : t.isFolder l with
  | true =>
    rw [h.folders l ht] at hl
    cases hl
  | false => rfl

theorem Widens.add_both (h : t.Widens u) (l : Location) :
    ({ t with folders := t.folders ++ [l] } :
      Tree).Widens { u with folders := u.folders ++ [l] } where
  files := h.files
  folders k hk := by
    rw [isFolder_add,Bool.or_eq_true] at hk ⊢
    exact hk.imp_left (h.folders k)
  added k hk := by
    rw [isFolder_add,Bool.or_eq_true] at hk
    rcases hk with hk | hk
    · rcases h.added k hk with hfolder | hfile
      · exact .inl (by rw [isFolder_add,hfolder,Bool.true_or])
      · exact .inr hfile
    · exact .inl (by rw [isFolder_add,hk,Bool.or_true])

theorem Widens.catch_up (h : t.Widens u) (hl : u.isFolder l = true) :
    ({ t with folders := t.folders ++ [l] } : Tree).Widens u where
  files := h.files
  folders k hk := by
    rw [isFolder_add,Bool.or_eq_true,decide_eq_true_eq] at hk
    rcases hk with hk | rfl
    · exact h.folders k hk
    · exact hl
  added k hk := by
    rcases h.added k hk with hfolder | hfile
    · exact .inl (by rw [isFolder_add,hfolder,Bool.true_or])
    · exact .inr hfile

theorem makeWay_widens {names : List String} {k : Location} (h : t.Widens u)
    (hway : u.makeWay l names = .ok (k, u')) :
    ∃ t', t.makeWay l names = .ok (k, t') ∧ t'.Widens u' := by
  induction names generalizing t u l with
  | nil =>
    cases hway
    exact ⟨t,rfl,h⟩
  | cons name names ih =>
    unfold makeWay at hway ⊢
    dsimp only at hway ⊢
    generalize (if name = ".." then l.dropLast else l ++ [name]) = next at hway ⊢
    have hfiles : u.isFile next = t.isFile next := isFile_congr h.files next
    cases hu : u.isFolder next with
    | true =>
      rw [hu,if_pos rfl] at hway
      cases ht : t.isFolder next with
      | true => exact ih h hway
      | false =>
        have hfile : t.isFile next = false := by
          rcases h.added next hu with hfolder | hfile
          · rw [ht] at hfolder
            cases hfolder
          · exact hfile
        rw [hfile]
        exact ih (h.catch_up hu) hway
    | false =>
      rw [hu,hfiles] at hway
      rw [h.isFolder_eq_false hu]
      cases hfile : t.isFile next with
      | true =>
        rw [hfile] at hway
        cases hway
      | false =>
        rw [hfile] at hway
        exact ih (h.add_both next) hway

theorem prepare_widens {place : Location} (h : t.Widens u)
    (hprepare : u.prepare folder p = .ok (place, u')) :
    ∃ t', t.prepare folder p = .ok (place, t') ∧ t'.Widens u' := by
  unfold prepare at hprepare ⊢
  split at hprepare
  · rename_i k u₁ hway
    obtain ⟨t₁,hway₁,hwidens⟩ := makeWay_widens h hway
    cases hprepare
    rw [hway₁]
    exact ⟨t₁,rfl,hwidens⟩
  · cases hprepare
  · cases hprepare

theorem prepare_obstruction {e : Failure} (h : t.prepare folder p = .error e) :
    e.isObstruction = true := by
  unfold prepare at h
  split at h
  · cases h
  · cases h
    rfl
  · cases h
    rfl

theorem files_put (h : u.files = t.files) (l : Location) (bytes : List UInt8) :
    (u.put l bytes).files = (t.put l bytes).files := by
  unfold put
  rw [isFile_congr h l]
  split
  · rw [h]
  · rw [h]

theorem files_deliver (h : u.files = t.files) (d : Delivery) :
    (u.deliver d).2.files = (t.deliver d).2.files := by
  unfold deliver
  rw [bytes?_congr h]
  split
  · exact files_put h _ _
  · split
    · exact files_put h _ _
    · split
      · exact h
      · split
        · exact h
        · exact files_put h _ _

theorem isFile_deliver (h : l ≠ d.place) : (t.deliver d).2.isFile l = t.isFile l := by
  rcases deliver_cases t d with hput | hsame
  · rw [hput,isFile,bytes?_put,if_neg h,isFile]
  · rw [hsame]

theorem deliver_widens (h : t.Widens u) (hplace : u.isFolder d.place = false) :
    (t.deliver d).2.Widens (u.deliver d).2 where
  files := files_deliver h.files d
  folders l hl := by
    rw [isFolder_deliver] at hl ⊢
    exact h.folders l hl
  added l hl := by
    rw [isFolder_deliver] at hl ⊢
    rcases h.added l hl with hfolder | hfile
    · exact .inl hfolder
    · have hne : l ≠ d.place := by
        intro heq
        rw [heq,hplace] at hl
        cases hl
      exact .inr (by rw [isFile_deliver hne,hfile])

theorem aim_both {path : Except Failure Path} {outcome : Except Failure (Path × Location)}
    (h : t.Widens u) (haim : u.aim folder path = (outcome, u'))
    (hclear : ∀ e, outcome = .error e → e.isObstruction = false) :
    ∃ t', t.aim folder path = (outcome, t') ∧ t'.Widens u' := by
  cases path with
  | error e =>
    cases haim
    exact ⟨t,rfl,h⟩
  | ok p =>
    unfold aim at haim ⊢
    dsimp only at haim ⊢
    cases hprepare : u.prepare folder p with
    | error e =>
      rw [hprepare] at haim
      cases haim
      have hobstruction := prepare_obstruction hprepare
      rw [hclear e rfl] at hobstruction
      cases hobstruction
    | ok place =>
      rw [hprepare] at haim
      cases haim
      obtain ⟨t₁,hprepare₁,hwidens⟩ := prepare_widens h hprepare
      rw [hprepare₁]
      exact ⟨t₁,rfl,hwidens⟩

/-- What the second tree receives without an obstruction the first one receives as well. -/
theorem receive_both {m : Manuscript} {outcome : Except Failure Unit} (h : t.Widens u)
    (hreceive : u.receive folder m = (outcome, u'))
    (hclear : ∀ e, outcome = .error e → e.isObstruction = false) :
    ∃ t', t.receive folder m = (outcome, t') ∧ t'.Widens u' := by
  unfold receive at hreceive ⊢
  split at hreceive
  · rename_i e u₁ haim
    cases hreceive
    obtain ⟨t₁,haim₁,hwidens⟩ := aim_both h haim fun e' he' =>
      hclear e' (by rw [Except.error.inj he'])
    rw [haim₁]
    exact ⟨t₁,rfl,hwidens⟩
  · rename_i path place u₁ haim
    obtain ⟨t₁,haim₁,hwidens⟩ := aim_both h haim (by simp)
    rw [haim₁]
    dsimp only
    split at hreceive
    · cases hreceive
      exact ⟨t₁,rfl,hwidens⟩
    · split at hreceive
      · cases hreceive
        exact absurd (hclear _ rfl) (by simp [Failure.isObstruction])
      · rename_i hplace
        cases hreceive
        rw [Bool.not_eq_true] at hplace
        rw [hwidens.isFolder_eq_false hplace]
        exact ⟨_,rfl,deliver_widens hwidens hplace⟩

end Tree

end Files

end InterfaceKit
