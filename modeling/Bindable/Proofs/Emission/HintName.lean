import Bindable.Emission.Entry
import Bindable.Proofs.Text.Cut
import Std.Data.String.ToNat

/-! File names tell types apart. A name is read from its end: the extension, the mark of the family,
the chain of types back to the last dot, and the namespace before it. -/

namespace Bindable

namespace TypeDeclaration

/-- The names of the types from the outermost one inwards, each with its number of parameters. -/
def chain (t : TypeDeclaration) : List (String × Nat) :=
  t.enclosing.map (fun e => (e.name, e.typeParameters.length)) ++
    [(t.name, t.typeParameters.length)]

/-- What the declarations of one type have in common. -/
def identity (t : TypeDeclaration) : Option String × List (String × Nat) := (t.namespace?, t.chain)

/-- The characters that a file name gives a meaning to occur in no name of the chain. -/
def HasPlainNames (t : TypeDeclaration) : Prop :=
  ∀ s ∈ t.chain, '.' ∉ s.1.toList ∧ '+' ∉ s.1.toList ∧ '\x60' ∉ s.1.toList ∧ '-' ∉ s.1.toList

instance (t : TypeDeclaration) : Decidable t.HasPlainNames :=
  inferInstanceAs (Decidable (∀ s ∈ t.chain, _))

end TypeDeclaration

def segmentChars (s : String × Nat) : List Char := (aritySegment s.1 s.2).toList

theorem segmentChars_eq (s : String × Nat) :
    segmentChars s = s.1.toList ++ if s.2 = 0 then [] else '\x60' :: s.2.repr.toList := by
  by_cases h : s.2 = 0
  · simp [segmentChars, aritySegment, h]
  · simp [segmentChars, aritySegment, h]

theorem segmentChars_inj {s s' : String × Nat} (hs : '\x60' ∉ s.1.toList)
    (hs' : '\x60' ∉ s'.1.toList) (h : segmentChars s = segmentChars s') : s = s' := by
  rw [segmentChars_eq, segmentChars_eq] at h
  obtain ⟨hname, harity⟩ := Text.append_inj_of_marked hs hs' (by split <;> simp)
    (by split <;> simp) h
  have hn : s.2 = s'.2 := by
    by_cases hz : s.2 = 0 <;> by_cases hz' : s'.2 = 0
    · rw [hz, hz']
    · simp [hz, hz'] at harity
    · simp [hz, hz'] at harity
    · simp only [hz, hz', if_false, List.cons.injEq, true_and] at harity
      exact Nat.repr_injective (String.toList_inj.mp harity)
  exact Prod.ext (String.toList_inj.mp hname) hn

theorem notMem_segmentChars {c : Char} {s : String × Nat} (hs : c ∉ s.1.toList) (hc : c ≠ '\x60')
    (hd : c.isDigit = false) : c ∉ segmentChars s := by
  rw [segmentChars_eq]
  intro hm
  rcases List.mem_append.mp hm with h | h
  · exact hs h
  · split at h
    · cases h
    · rcases List.mem_cons.mp h with rfl | h
      · exact hc rfl
      · have hdigit : c.isDigit = true :=
          Nat.isDigit_of_mem_toDigits (b := 10) (by decide) (by decide) (by simpa using h)
        simp [hd] at hdigit

def chainChars (l : List (String × Nat)) : List Char := l.flatMap fun s => '+' :: segmentChars s

theorem chainChars_append_singleton (l : List (String × Nat)) (s : String × Nat) :
    chainChars (l ++ [s]) =
      '+' :: (l.flatMap (fun s => segmentChars s ++ ['+']) ++ segmentChars s) := by
  induction l with
  | nil => simp [chainChars]
  | cons x l ih =>
    have hx : chainChars (x :: l ++ [s]) = '+' :: segmentChars x ++ chainChars (l ++ [s]) := rfl
    rw [hx, ih]
    simp

theorem notMem_chainChars {c : Char} {l : List (String × Nat)} (hl : ∀ s ∈ l, c ∉ s.1.toList)
    (hplus : c ≠ '+') (hc : c ≠ '\x60') (hd : c.isDigit = false) : c ∉ chainChars l := by
  intro hm
  obtain ⟨s, hs, h⟩ := List.mem_flatMap.mp hm
  rcases List.mem_cons.mp h with h | h
  · exact hplus h
  · exact notMem_segmentChars (hl s hs) hc hd h

theorem chainChars_head? {l : List (String × Nat)} : ∀ x ∈ (chainChars l).head?, x = '+' := by
  cases l <;> simp [chainChars]

/-- Chains are read segment by segment, each up to the next plus sign. -/
theorem chainChars_inj {l l' : List (String × Nat)}
    (hl : ∀ s ∈ l, '+' ∉ s.1.toList ∧ '\x60' ∉ s.1.toList)
    (hl' : ∀ s ∈ l', '+' ∉ s.1.toList ∧ '\x60' ∉ s.1.toList)
    (h : chainChars l = chainChars l') : l = l' := by
  induction l generalizing l' with
  | nil =>
    cases l' with
    | nil => rfl
    | cons s' l' => simp [chainChars] at h
  | cons s l ih =>
    cases l' with
    | nil => simp [chainChars] at h
    | cons s' l' =>
      have hs := hl s (by simp)
      have hs' := hl' s' (by simp)
      have hcut : segmentChars s ++ chainChars l = segmentChars s' ++ chainChars l' := by
        simpa [chainChars] using h
      obtain ⟨hseg, hrest⟩ := Text.append_inj_of_marked
        (notMem_segmentChars hs.1 (by decide) (by decide))
        (notMem_segmentChars hs'.1 (by decide) (by decide)) chainChars_head? chainChars_head? hcut
      rw [segmentChars_inj hs.2 hs'.2 hseg, ih (fun x hx => hl x (by simp [hx]))
        (fun x hx => hl' x (by simp [hx])) hrest]

def familyMark : MarkerFamily → List Char
  | .onInstance => []
  | .attached => '-' :: "Attached".toList

theorem familyMark_inj {f g : MarkerFamily} (h : familyMark f = familyMark g) : f = g := by
  cases f <;> cases g <;> simp_all [familyMark]

theorem familyMark_head? {f : MarkerFamily} : ∀ x ∈ (familyMark f).head?, x = '-' := by
  cases f <;> simp [familyMark]

theorem toList_hintName (t : TypeDeclaration) (f : MarkerFamily) :
    ∃ body, chainChars t.chain = '+' :: body ∧
      (hintName t f).toList =
        t.qualification.toList ++ (body ++ familyMark f) ++ ".g.cs".toList := by
  refine ⟨_, chainChars_append_singleton _ _, ?_⟩
  have hplus : "+".toList = ['+'] := rfl
  simp only [hintName, String.toList_append, String.toList_join, List.flatMap_map,
    List.append_assoc, segmentChars, hplus]
  cases f <;> rfl

theorem notMem_familyMark {f : MarkerFamily} : '.' ∉ familyMark f := by
  cases f <;> simp [familyMark]

namespace TypeDeclaration

variable {a b : TypeDeclaration} {f g : MarkerFamily}

theorem toList_qualification (t : TypeDeclaration) :
    t.qualification.toList = match t.namespace? with
      | some n => n.toList ++ ['.']
      | none => [] := by
  have hdot : ".".toList = ['.'] := rfl
  cases h : t.namespace? with
  | none => simp [qualification, h]
  | some n => simp [qualification, h, hdot]

theorem namespace?_eq (h : a.qualification = b.qualification) : a.namespace? = b.namespace? := by
  have hl := congrArg String.toList h
  rw [toList_qualification, toList_qualification] at hl
  cases ha : a.namespace? with
  | none =>
    cases hb : b.namespace? with
    | none => rfl
    | some n => simp [ha, hb] at hl
  | some n =>
    cases hb : b.namespace? with
    | none => simp [ha, hb] at hl
    | some m =>
      simp only [ha, hb] at hl
      rw [String.toList_inj.mp (List.append_cancel_right hl)]

theorem qualification_append_inj {t t' : List Char} (ht : '.' ∉ t) (ht' : '.' ∉ t')
    (h : a.qualification.toList ++ t = b.qualification.toList ++ t') :
    a.qualification = b.qualification ∧ t = t' := by
  have hlast : ∀ (c : TypeDeclaration) (t : List Char), '.' ∉ t →
      Text.afterLast '.' (c.qualification.toList ++ t) = t := by
    intro c t ht
    rw [toList_qualification]
    cases c.namespace? with
    | none => exact Text.afterLast_of_notMem ht
    | some n => simpa using Text.afterLast_append n.toList ht
  have he : t = t' := by rw [← hlast a t ht, h, hlast b t' ht']
  exact ⟨String.toList_inj.mp (List.append_cancel_right (he ▸ h)), he⟩

theorem hintName_parts (ha : a.HasPlainNames) (hb : b.HasPlainNames)
    (h : hintName a f = hintName b g) :
    a.namespace? = b.namespace? ∧ a.chain = b.chain ∧ f = g := by
  obtain ⟨s, hs, hname⟩ := toList_hintName a f
  obtain ⟨s', hs', hname'⟩ := toList_hintName b g
  have hfree : ∀ (t : TypeDeclaration), t.HasPlainNames → ∀ s, chainChars t.chain = '+' :: s →
      '.' ∉ s ∧ '-' ∉ s := by
    intro t ht s hs
    have hdot := notMem_chainChars (fun s hs => (ht s hs).1) (by decide) (by decide) (by decide)
    have hdash := notMem_chainChars (fun s hs => (ht s hs).2.2.2) (by decide) (by decide)
      (by decide)
    rw [hs] at hdot hdash
    exact ⟨fun hm => hdot (List.mem_cons_of_mem _ hm), fun hm => hdash (List.mem_cons_of_mem _ hm)⟩
  have hf := hfree a ha s hs
  have hf' := hfree b hb s' hs'
  have hall : a.qualification.toList ++ (s ++ familyMark f) =
      b.qualification.toList ++ (s' ++ familyMark g) :=
    List.append_cancel_right (hname.symm.trans ((congrArg String.toList h).trans hname'))
  obtain ⟨hq, htail⟩ := qualification_append_inj
    (by simpa using ⟨hf.1, notMem_familyMark⟩) (by simpa using ⟨hf'.1, notMem_familyMark⟩) hall
  obtain ⟨hchain, hmark⟩ :=
    Text.append_inj_of_marked hf.2 hf'.2 familyMark_head? familyMark_head? htail
  refine ⟨namespace?_eq hq, ?_, familyMark_inj hmark⟩
  exact chainChars_inj (fun x hx => ⟨(ha x hx).2.1, (ha x hx).2.2.1⟩)
    (fun x hx => ⟨(hb x hx).2.1, (hb x hx).2.2.1⟩) (by rw [hs, hs', hchain])

/-- Two types share a file name only if they are declared in one namespace, inside types of the same
names and numbers of parameters, with the same name and number of parameters, and the files are of
one family. An empty namespace counts as none. -/
theorem hintName_injective (ha : a.HasPlainNames) (hb : b.HasPlainNames)
    (h : hintName a f = hintName b g) :
    f = g ∧ a.namespaceName.filter (· ≠ "") = b.namespaceName.filter (· ≠ "") ∧
      a.enclosing.map (fun e => (e.name, e.typeParameters.length)) =
        b.enclosing.map (fun e => (e.name, e.typeParameters.length)) ∧
      a.name = b.name ∧ a.typeParameters.length = b.typeParameters.length := by
  obtain ⟨hns, hchain, hfamily⟩ := hintName_parts ha hb h
  obtain ⟨henclosing, hlast⟩ := List.append_inj' hchain rfl
  obtain ⟨hname, harity⟩ := Prod.mk.inj (List.singleton_inj.mp hlast)
  exact ⟨hfamily, hns, henclosing, hname, harity⟩

/-- An absent and an empty namespace around a generic type inside another one. -/
theorem hintName_injective_nested :
    let outer : EnclosingType := { name := "Outer", kind := .classType, typeParameters := [] }
    let other : EnclosingType := { outer with kind := .structType }
    let a : TypeDeclaration := { (default : TypeDeclaration) with
      namespaceName := none, name := "Inner", typeParameters := ["T"], enclosing := [outer] }
    let b : TypeDeclaration := { (default : TypeDeclaration) with
      namespaceName := some "", name := "Inner", typeParameters := ["U"], enclosing := [other] }
    a.HasPlainNames ∧ b.HasPlainNames ∧ hintName a .attached = hintName b .attached ∧
      a.enclosing.map (fun e => (e.name, e.typeParameters.length)) =
        b.enclosing.map (fun e => (e.name, e.typeParameters.length)) ∧ a.name = b.name := by
  intro outer other a b
  have ha : a.HasPlainNames := by decide
  have hb : b.HasPlainNames := by decide
  have he : hintName a .attached = hintName b .attached := by decide
  have hi := hintName_injective ha hb he
  exact ⟨ha, hb, he, hi.2.2.1, hi.2.2.2.1⟩

end TypeDeclaration

end Bindable
