import InterfaceKit.Files.Delivery

/-!
# What deliveries leave

Documents are delivered one after the other. What a place holds in the end depends on the documents
for this place only: on the last one that overrides, on what was there before, and on the first one.
Folders that are made in between do not matter. Contents are compared by their digests, so this is
said for contents whose digests differ.
-/
namespace InterfaceKit

/-- Different contents have different digests. -/
def Digest.Distinct (bs : List (List UInt8)) : Prop :=
  ∀ a ∈ bs, ∀ b ∈ bs, Md5.digest a = Md5.digest b → a = b

instance (bs : List (List UInt8)) : Decidable (Digest.Distinct bs) :=
  inferInstanceAs (Decidable (∀ a ∈ bs, ∀ b ∈ bs, Digest.Md5.digest a = Digest.Md5.digest b → a = b))

theorem Digest.Distinct.mono {as bs : List (List UInt8)} (h : Distinct bs) (hsub : as ⊆ bs) :
    Distinct as :=
  fun a ha b hb => h a (hsub ha) b (hsub hb)

namespace Files

/-- A document that is not to be preserved, or that is forced, takes the place of what is there. -/
def Delivery.overrides (d : Delivery) : Bool := d.force || !d.preserve

/-- What a place holds after documents for it, if it held `old` before: the last document that
overrides, else what was there, else the first document. -/
def settled (old : Option (List UInt8)) (ds : List Delivery) : Option (List UInt8) :=
  ((ds.filter Delivery.overrides).getLast?.map (·.bytes)).or (old.or (ds.head?.map (·.bytes)))

section
variable (old : Option (List UInt8)) (ds es : List Delivery)

@[simp] theorem settled_nil : settled old [] = old := by simp [settled]

theorem settled_append : settled old (ds ++ es) = settled (settled old ds) es := by
  simp only [settled,List.filter_append,List.getLast?_append,List.head?_append,Option.map_or,
    Option.or_assoc]

theorem settled_again : settled (settled old ds) ds = settled old ds := by
  rw [← settled_append,settled,settled,List.filter_append,List.getLast?_append,List.head?_append,
    Option.or_self,Option.or_self]

theorem settled_singleton (d : Delivery) :
    settled old [d] = if d.overrides then some d.bytes else some (old.getD d.bytes) := by
  by_cases h : d.overrides
  · simp [settled,h]
  · cases old <;> simp [settled,h]

theorem settled_isSome (h : ds ≠ []) : (settled old ds).isSome = true := by
  obtain ⟨d,es,rfl⟩ := List.exists_cons_of_ne_nil h
  simp [settled]

variable {old ds}

theorem settled_eq_some {b : List UInt8} (h : settled old ds = some b) :
    old = some b ∨ ∃ d ∈ ds, b = d.bytes := by
  unfold settled at h
  rcases Option.or_eq_some_iff.mp h with hlast | ⟨-,hrest⟩
  · obtain ⟨d,hd,rfl⟩ := Option.map_eq_some_iff.mp hlast
    exact .inr ⟨d,(List.mem_filter.mp (List.mem_of_getLast? hd)).1,rfl⟩
  · rcases Option.or_eq_some_iff.mp hrest with hold | ⟨-,hfirst⟩
    · exact .inl hold
    · obtain ⟨d,hd,rfl⟩ := Option.map_eq_some_iff.mp hfirst
      exact .inr ⟨d,List.mem_of_head? hd,rfl⟩

/-- If all documents that override say the same, the place holds what they say. -/
theorem settled_of_agree {d : Delivery} (hd : d ∈ ds) (hover : d.overrides = true)
    (hsame : ∀ e ∈ ds, e.overrides = true → e.bytes = d.bytes) : settled old ds = some d.bytes := by
  have hmem : d ∈ ds.filter Delivery.overrides := List.mem_filter.mpr ⟨hd,hover⟩
  obtain ⟨e,he⟩ : ∃ e, (ds.filter Delivery.overrides).getLast? = some e :=
    ⟨_,List.getLast?_eq_some_getLast (List.ne_nil_of_mem hmem)⟩
  have hlast := List.mem_filter.mp (List.mem_of_getLast? he)
  have hbytes : e.bytes = d.bytes := hsame e hlast.1 hlast.2
  simp [settled,he,hbytes]

end

namespace Tree
variable {t t' : Tree} {l : Location} {d : Delivery} {ds : List Delivery}

/-! ## One delivery -/

theorem lookup_cons_eq (k : Location) (f : Location × List UInt8)
    (fs : List (Location × List UInt8)) :
    (f :: fs).lookup k = if k = f.1 then some f.2 else fs.lookup k := by
  obtain ⟨l,bytes⟩ := f
  rw [List.lookup_cons]
  split
  · rename_i h
    rw [if_pos (by simpa using h)]
  · rename_i h
    rw [if_neg (by simpa using h)]

theorem lookup_replace (l k : Location) (bytes : List UInt8) (fs : List (Location × List UInt8)) :
    (fs.map fun f => if f.1 = l then (l, bytes) else f).lookup k =
      if k = l then (fs.lookup l).map fun _ => bytes else fs.lookup k := by
  induction fs with
  | nil => simp
  | cons f fs ih =>
    rw [List.map_cons,lookup_cons_eq,lookup_cons_eq,lookup_cons_eq,ih]
    by_cases hf : f.1 = l
    · by_cases hk : k = l <;> simp [hf,hk]
    · by_cases hk : k = l
      · simp [hk,hf,Ne.symm hf]
      · simp [hf,hk]

theorem bytes?_put (t : Tree) (l k : Location) (bytes : List UInt8) :
    (t.put l bytes).bytes? k = if k = l then some bytes else t.bytes? k := by
  unfold put isFile bytes?
  cases hl : t.files.lookup l with
  | some old => simp [lookup_replace,hl]
  | none =>
    have hlast : ([(l, bytes)] : List (Location × List UInt8)).lookup k =
      if k = l then some bytes else none :=
      lookup_cons_eq k (l, bytes) []
    by_cases hk : k = l
    · subst hk
      simp [List.lookup_append,hl,hlast]
    · simp [List.lookup_append,hlast,hk]

/-- The contents that deliveries have to do with: those of the documents, and what stands in their
places. -/
def involved (t : Tree) (ds : List Delivery) : List (List UInt8) :=
  ds.flatMap fun d => d.bytes :: (t.bytes? d.place).toList

variable {b : List UInt8} {k : Location} {names : List String}

theorem mem_involved : b ∈ t.involved ds ↔ ∃ d ∈ ds, b = d.bytes ∨ t.bytes? d.place = some b := by
  simp [involved]

theorem deliver_cases (t : Tree) (d : Delivery) :
    (t.deliver d).2 = t.put d.place d.bytes ∨ (t.deliver d).2 = t := by
  unfold deliver
  split
  · exact .inl rfl
  · split
    · exact .inl rfl
    · split
      · exact .inr rfl
      · split
        · exact .inr rfl
        · exact .inl rfl

/-- One document settles its place, and all others keep what they hold. -/
theorem bytes?_deliver (h : Digest.Distinct (t.involved [d])) (l : Location) :
    (t.deliver d).2.bytes? l = settled (t.bytes? l) ([d].filter fun d => d.place = l) := by
  by_cases hl : d.place = l
  · subst hl
    have hfilter : [d].filter (fun e => e.place = d.place) = [d] := by simp
    rw [hfilter,settled_singleton]
    unfold deliver
    cases hold : t.bytes? d.place with
    | none => simp [bytes?_put]
    | some old =>
      have hsame : Digest.Md5.digest d.bytes = Digest.Md5.digest old → d.bytes = old :=
        h _ (mem_involved.mpr ⟨d,by simp,.inl rfl⟩) _ (mem_involved.mpr ⟨d,by simp,.inr hold⟩)
      cases hforce : d.force with
      | true => simp [Delivery.overrides,hforce,bytes?_put]
      | false =>
        by_cases hdigest : Digest.Md5.digest d.bytes = Digest.Md5.digest old
        · simp [hold,hsame hdigest]
        · cases hpreserve : d.preserve <;>
            simp [Delivery.overrides,hforce,hdigest,hpreserve,hold,bytes?_put]
  · have hfilter : [d].filter (fun e => e.place = l) = [] := by simp [hl]
    rw [hfilter,settled_nil]
    rcases deliver_cases t d with hput | hsame
    · rw [hput,bytes?_put,if_neg (Ne.symm hl)]
    · rw [hsame]

/-- A document that says what is there already, or that must not override it, is not written. -/
theorem deliver_idle (hb : t.bytes? d.place = some b) (hforce : d.force = false)
    (hsame : d.preserve = false → b = d.bytes) :
    ∃ receipt, receipt ≠ .created ∧ t.deliver d = (receipt, t) := by
  unfold deliver
  rw [hb]
  cases hpreserve : d.preserve with
  | false => exact ⟨.unchanged,by simp,by simp [hforce,hsame hpreserve]⟩
  | true =>
    by_cases hdigest : Digest.Md5.digest d.bytes = Digest.Md5.digest b
    · exact ⟨.unchanged,by simp,by simp [hforce,hdigest]⟩
    · exact ⟨.preserved,by simp,by simp [hforce,hdigest]⟩

/-! ## Many deliveries -/

/-- Documents are delivered one after the other. In between the folders may change. -/
inductive Delivered : Tree → List Delivery → Tree → Prop
  | done {t t' : Tree} (h : t'.files = t.files) : Delivered t [] t'
  | next {t t₁ t' : Tree} {d : Delivery} {ds : List Delivery} (h : t₁.files = t.files)
      (hrest : Delivered (t₁.deliver d).2 ds t') : Delivered t (d :: ds) t'

theorem bytes?_congr (h : t'.files = t.files) : t'.bytes? = t.bytes? := by
  funext l
  rw [bytes?,bytes?,h]

theorem involved_congr (h : t'.files = t.files) (ds : List Delivery) :
    t'.involved ds = t.involved ds := by
  rw [involved,involved,bytes?_congr h]

theorem involved_head (t : Tree) (d : Delivery) (ds : List Delivery) :
    t.involved [d] ⊆ t.involved (d :: ds) := by
  simp [involved]

theorem involved_deliver (h : Digest.Distinct (t.involved (d :: ds))) :
    (t.deliver d).2.involved ds ⊆ t.involved (d :: ds) := by
  intro b hb
  obtain ⟨e,he,hb | hb⟩ := mem_involved.mp hb
  · exact mem_involved.mpr ⟨e,List.mem_cons_of_mem d he,.inl hb⟩
  · rw [bytes?_deliver (h.mono (involved_head t d ds))] at hb
    rcases settled_eq_some hb with hold | ⟨x,hx,rfl⟩
    · exact mem_involved.mpr ⟨e,List.mem_cons_of_mem d he,.inr hold⟩
    · have hxd : x = d := by simpa using (List.mem_filter.mp hx).1
      exact mem_involved.mpr ⟨d,List.mem_cons_self,.inl (by rw [hxd])⟩

/-- Each place is settled by the documents for it. -/
theorem Delivered.bytes?_eq (hd : Delivered t ds t') (h : Digest.Distinct (t.involved ds))
    (l : Location) :
    t'.bytes? l = settled (t.bytes? l) (ds.filter fun d => d.place = l) := by
  induction hd with
  | done hfiles => rw [bytes?_congr hfiles,List.filter_nil,settled_nil]
  | @next t t₁ t' d ds hfiles _ ih =>
    have h₁ : Digest.Distinct (t₁.involved (d :: ds)) := by rwa [involved_congr hfiles]
    have hstep := bytes?_deliver (h₁.mono (involved_head t₁ d ds)) l
    rw [ih (h₁.mono (involved_deliver h₁)),hstep,← settled_append,← List.filter_append,
      bytes?_congr hfiles]
    rfl

theorem Delivered.involved_subset (hd : Delivered t ds t') (h : Digest.Distinct (t.involved ds)) :
    t'.involved ds ⊆ t.involved ds := by
  intro b hb
  obtain ⟨e,he,hb | hb⟩ := mem_involved.mp hb
  · exact mem_involved.mpr ⟨e,he,.inl hb⟩
  · rw [hd.bytes?_eq h] at hb
    rcases settled_eq_some hb with hold | ⟨x,hx,rfl⟩
    · exact mem_involved.mpr ⟨e,he,.inr hold⟩
    · exact mem_involved.mpr ⟨x,(List.mem_filter.mp hx).1,.inl rfl⟩

/-! ## Making folders -/

/-- Folders are added where no files are. -/
structure Widens (t t' : Tree) : Prop where
  files : t'.files = t.files
  folders : ∀ l, t.isFolder l = true → t'.isFolder l = true
  added : ∀ l, t'.isFolder l = true → t.isFolder l = true ∨ t.isFile l = false

protected theorem Widens.refl (t : Tree) : t.Widens t := ⟨rfl,fun _ h => h,fun _ h => .inl h⟩

theorem isFile_congr (h : t'.files = t.files) (l : Location) : t'.isFile l = t.isFile l := by
  rw [isFile,isFile,bytes?_congr h]

theorem Widens.trans {t'' : Tree} (h : t.Widens t') (h' : t'.Widens t'') : t.Widens t'' where
  files := h'.files.trans h.files
  folders l hl := h'.folders l (h.folders l hl)
  added l hl := by
    rcases h'.added l hl with hfolder | hfile
    · exact h.added l hfolder
    · exact .inr (by rwa [isFile_congr h.files] at hfile)

theorem isFolder_add (t : Tree) (k l : Location) :
    ({ t with folders := t.folders ++ [k] } : Tree).isFolder l =
      (t.isFolder l || decide (l = k)) := by
  simp [isFolder,List.contains_eq_mem,Bool.or_assoc]

theorem Widens.add (h : t.isFile l = false) : t.Widens { t with folders := t.folders ++ [l] } where
  files := rfl
  folders k hk := by rw [isFolder_add,hk,Bool.true_or]
  added k hk := by
    rw [isFolder_add,Bool.or_eq_true,decide_eq_true_eq] at hk
    rcases hk with hk | rfl
    · exact .inl hk
    · exact .inr h

theorem isFolder_deliver (t : Tree) (d : Delivery) (l : Location) :
    (t.deliver d).2.isFolder l = t.isFolder l := by
  rcases deliver_cases t d with hput | hsame
  · rw [hput,put]
    split <;> rfl
  · rw [hsame]

theorem follow_mono (h : ∀ l, t.isFolder l = true → t'.isFolder l = true)
    (hf : t.follow l names = some k) : t'.follow l names = some k := by
  induction names generalizing l with
  | nil => exact hf
  | cons name names ih =>
    unfold follow at hf ⊢
    split at hf
    · rename_i hl
      rw [if_pos (h l hl)]
      exact ih hf
    · cases hf

theorem follow_append (t : Tree) (l : Location) (xs ys : List String) :
    t.follow l (xs ++ ys) = (t.follow l xs).bind fun k => t.follow k ys := by
  induction xs generalizing l with
  | nil => rfl
  | cons x xs ih =>
    rw [List.cons_append,follow,follow]
    split
    · exact ih _
    · rfl

/-- Names lead to the folder that was made for them. -/
theorem makeWay_spec (hl : t.isFolder l = true) (h : t.makeWay l names = .ok (k, t')) :
    t.Widens t' ∧ t'.isFolder k = true ∧ t'.follow l names = some k := by
  induction names generalizing t l with
  | nil =>
    cases h
    exact ⟨.refl _,hl,rfl⟩
  | cons name names ih =>
    unfold makeWay at h
    dsimp only at h
    unfold follow
    generalize (if name = ".." then l.dropLast else l ++ [name]) = next at h ⊢
    split at h
    · rename_i hnext
      obtain ⟨hwidens,hk,hfollow⟩ := ih hnext h
      rw [if_pos (hwidens.folders l hl)]
      exact ⟨hwidens,hk,hfollow⟩
    · split at h
      · cases h
      · rename_i hfile
        have hadd : t.Widens { t with folders := t.folders ++ [next] } :=
          Widens.add (by simpa using hfile)
        have hnext : ({ t with folders := t.folders ++ [next] } : Tree).isFolder next = true := by
          rw [isFolder_add,decide_eq_true rfl,Bool.or_true]
        obtain ⟨hwidens,hk,hfollow⟩ := ih hnext h
        rw [if_pos (hwidens.folders l (hadd.folders l hl))]
        exact ⟨hadd.trans hwidens,hk,hfollow⟩

theorem join_names (folder : Path) {p : Path} (h : p.names ≠ []) :
    (folder.join p).names = (folder.join p.parent).names ++ [p.name] := by
  have hnames : p.names = p.parent.names ++ [p.name] := by
    rw [Path.parent,Path.name,List.getLast?_eq_some_getLast h,Option.getD_some,
      List.dropLast_concat_getLast h]
  have habsolute : p.parent.isAbsolute = p.isAbsolute := rfl
  unfold Path.join
  rw [habsolute]
  split
  · exact hnames
  · simp only [List.append_assoc]
    rw [← hnames]

theorem prepare_spec {folder p : Path} {place : Location}
    (h : t.prepare folder p = .ok (place, t')) :
    t.Widens t' ∧ t'.locate folder p = some place := by
  unfold prepare at h
  split at h
  · rename_i l t₁ hway
    obtain ⟨hplace,rfl⟩ := Prod.mk.inj (Except.ok.inj h)
    obtain ⟨hwidens,hfolder,hfollow⟩ := makeWay_spec rfl hway
    refine ⟨hwidens,?_⟩
    rw [locate,← hplace]
    by_cases hp : p.names = []
    · have hparent : p.parent = p := by rw [Path.parent,hp,List.dropLast_nil,← hp]
      rw [hparent] at hfollow
      simpa [hp] using hfollow
    · have hempty : p.names.isEmpty = false := by simpa using hp
      rw [join_names folder hp,follow_append,hfollow]
      simp [follow,hfolder,hempty]
  · cases h
  · cases h

end Tree

end Files

end InterfaceKit
