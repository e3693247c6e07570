import Mathlib.Data.List.Forall2
import Mathlib.Data.Multiset.AddSub

/-! Ordered forests of labelled nodes, as first tree and siblings. A tree is a label together with
the forest below it. -/

inductive Forest (β : Type*) where
  | nil
  | cons (label : β) (children siblings : Forest β)

namespace Forest
variable {β γ : Type*} {P Q : β → List β → Prop}

/-- The labels of the trees' roots, in order. -/
def roots : Forest β → List β
  | nil => []
  | cons label _ siblings => label :: siblings.roots

/-- All labels, each node before the nodes below it. -/
def labels : Forest β → List β
  | nil => []
  | cons label children siblings => label :: (children.labels ++ siblings.labels)

/-- The number of levels. -/
def height : Forest β → Nat
  | nil => 0
  | cons _ children siblings => max (children.height + 1) siblings.height

/-- `P` holds at every node, of its label and the labels of its children. -/
def All (P : β → List β → Prop) : Forest β → Prop
  | nil => True
  | cons label children siblings => P label children.roots ∧ children.All P ∧ siblings.All P

def map (g : β → γ) : Forest β → Forest γ
  | nil => nil
  | cons label children siblings => cons (g label) (children.map g) (siblings.map g)

theorem All.imp {F : Forest β}
    (h : ∀ label ∈ F.labels, ∀ children, P label children → Q label children) (hF : F.All P) :
    F.All Q := by
  induction F with
  | nil => trivial
  | cons label children siblings ihc ihs =>
    simp only [labels, List.forall_mem_cons, List.forall_mem_append] at h
    exact ⟨h.1 _ hF.1, ihc h.2.1 hF.2.1, ihs h.2.2 hF.2.2⟩

theorem mem_labels_of_mem_roots {F : Forest β} {x : β} (h : x ∈ F.roots) : x ∈ F.labels := by
  induction F with
  | nil => cases h
  | cons label children siblings _ ihs =>
    obtain rfl | h := List.mem_cons.mp h
    · exact List.mem_cons_self
    · exact List.mem_cons_of_mem _ (List.mem_append_right _ (ihs h))

/-- Below a label there is a family: what `P` says of it, and its children in the forest. -/
theorem All.exists_children {F : Forest β} (hF : F.All P) {x : β} (hx : x ∈ F.labels) :
    ∃ children, P x children ∧ ∀ y ∈ children, y ∈ F.labels := by
  induction F with
  | nil => cases hx
  | cons label children siblings ihc ihs =>
    obtain ⟨hP, hc, hs⟩ := hF
    obtain rfl | hx := List.mem_cons.mp hx
    · refine ⟨children.roots, hP, fun y hy => ?_⟩
      exact List.mem_cons_of_mem _ (List.mem_append_left _ (mem_labels_of_mem_roots hy))
    · obtain hx | hx := List.mem_append.mp hx
      · obtain ⟨below, hbelow, hmem⟩ := ihc hc hx
        exact ⟨below, hbelow, fun y hy =>
          List.mem_cons_of_mem _ (List.mem_append_left _ (hmem y hy))⟩
      · obtain ⟨below, hbelow, hmem⟩ := ihs hs hx
        exact ⟨below, hbelow, fun y hy =>
          List.mem_cons_of_mem _ (List.mem_append_right _ (hmem y hy))⟩

/-- What holds of the roots and passes from a node to its children holds of all labels; `q` is known
of every label. -/
theorem forall_labels {F : Forest β} {p q : β → Prop} (hF : F.All P) (hq : ∀ x ∈ F.labels, q x)
    (hroots : ∀ x ∈ F.roots, p x)
    (hstep : ∀ x children, P x children → p x → ∀ y ∈ children, q y → p y) :
    ∀ x ∈ F.labels, p x := by
  induction F with
  | nil => simp [labels]
  | cons label children siblings ihc ihs =>
    obtain ⟨hP, hc, hs⟩ := hF
    simp only [labels, List.forall_mem_cons, List.forall_mem_append] at hq
    have hlabel : p label := hroots label List.mem_cons_self
    intro x hx
    obtain rfl | hx := List.mem_cons.mp hx
    · exact hlabel
    · obtain hx | hx := List.mem_append.mp hx
      · apply ihc hc hq.2.1 _ x hx
        intro y hy
        exact hstep label children.roots hP hlabel y hy (hq.2.1 y (mem_labels_of_mem_roots hy))
      · exact ihs hs hq.2.2 (fun y hy => hroots y (List.mem_cons_of_mem _ hy)) x hx

@[simp] theorem roots_map (g : β → γ) (F : Forest β) : (F.map g).roots = F.roots.map g := by
  induction F with
  | nil => rfl
  | cons label children siblings _ ihs => simp [roots, map, ihs]

@[simp] theorem labels_map (g : β → γ) (F : Forest β) : (F.map g).labels = F.labels.map g := by
  induction F with
  | nil => rfl
  | cons label children siblings ihc ihs => simp [labels, map, ihc, ihs]

@[simp] theorem height_map (g : β → γ) (F : Forest β) : (F.map g).height = F.height := by
  induction F with
  | nil => rfl
  | cons label children siblings ihc ihs => simp [height, map, ihc, ihs]

theorem All.map {P : γ → List γ → Prop} {g : β → γ} {F : Forest β}
    (hF : F.All fun label children => P (g label) (children.map g)) : (F.map g).All P := by
  induction F with
  | nil => trivial
  | cons label children siblings ihc ihs =>
    refine ⟨?_, ihc hF.2.1, ihs hF.2.2⟩
    rw [roots_map]
    exact hF.1

/-- When a node determines its children among the admissible labels, a forest is determined by its
roots. -/
theorem eq_of_roots_eq {F G : Forest β} (admissible : β → Prop)
    (hdet : ∀ label cs cs', P label cs → P label cs' → (∀ x ∈ cs, admissible x) →
      (∀ x ∈ cs', admissible x) → cs = cs')
    (hF : F.All P) (hG : G.All P) (hFa : ∀ x ∈ F.labels, admissible x)
    (hGa : ∀ x ∈ G.labels, admissible x) (hroots : F.roots = G.roots) : F = G := by
  induction F generalizing G with
  | nil =>
    cases G with
    | nil => rfl
    | cons label children siblings => cases hroots
  | cons label children siblings ihc ihs =>
    cases G with
    | nil => cases hroots
    | cons label' children' siblings' =>
      obtain ⟨rfl, hsib⟩ := List.cons.inj hroots
      obtain ⟨hP, hc, hs⟩ := hF
      obtain ⟨hP', hc', hs'⟩ := hG
      simp only [labels, List.forall_mem_cons, List.forall_mem_append] at hFa hGa
      have hchildren : children.roots = children'.roots :=
        hdet label _ _ hP hP' (fun x hx => hFa.2.1 x (mem_labels_of_mem_roots hx))
          fun x hx => hGa.2.1 x (mem_labels_of_mem_roots hx)
      rw [ihc hc hc' hFa.2.1 hGa.2.1 hchildren, ihs hs hs' hFa.2.2 hGa.2.2 hsib]

/-- Where `h` lists the marks of a node's children, the marks of all nodes are those of the roots and
what `h` lists at each node. -/
theorem All.map_labels_perm {F : Forest β} {g : β → γ} {h : β → List γ} (hF : F.All P)
    (hP : ∀ x children, P x children → children.map g = h x) :
    (F.labels.map g).Perm (F.roots.map g ++ F.labels.flatMap h) := by
  induction F with
  | nil => exact .refl _
  | cons label children siblings ihc ihs =>
    obtain ⟨hlabel, hc, hs⟩ := hF
    have hchildren := hP label children.roots hlabel
    have hperm := (ihc hc).append (ihs hs)
    simp only [labels, roots, List.map_cons, List.map_append, List.flatMap_cons,
      List.flatMap_append, List.cons_append, ← hchildren]
    refine (hperm.trans ?_).cons (g label)
    rw [List.append_assoc]
    exact ((List.perm_append_comm_assoc _ _ _).append_left _).trans (List.perm_append_comm_assoc _ _ _)

/-- The trees of both, in order. -/
def append : Forest β → Forest β → Forest β
  | nil, G => G
  | cons label children siblings, G => cons label children (siblings.append G)

@[simp] theorem append_nil (F : Forest β) : F.append nil = F := by
  induction F with
  | nil => rfl
  | cons label children siblings _ ihs => simp [append, ihs]

@[simp] theorem roots_append (F G : Forest β) : (F.append G).roots = F.roots ++ G.roots := by
  induction F with
  | nil => rfl
  | cons label children siblings _ ihs => simp [append, roots, ihs]

@[simp] theorem labels_append (F G : Forest β) : (F.append G).labels = F.labels ++ G.labels := by
  induction F with
  | nil => rfl
  | cons label children siblings _ ihs => simp [append, labels, ihs]

@[simp] theorem height_append (F G : Forest β) :
    (F.append G).height = max F.height G.height := by
  induction F with
  | nil => simp [append, height]
  | cons label children siblings _ ihs => simp [append, height, ihs, max_assoc]

theorem all_append {F G : Forest β} : (F.append G).All P ↔ F.All P ∧ G.All P := by
  induction F with
  | nil => simp [append, All]
  | cons label children siblings _ ihs => simp [append, All, ihs, and_assoc]

/-- A forest comes apart where its list of roots does. -/
theorem exists_append_of_roots {F : Forest β} {xs ys : List β} (h : F.roots = xs ++ ys) :
    ∃ G H : Forest β, F = G.append H ∧ G.roots = xs ∧ H.roots = ys := by
  induction xs generalizing F with
  | nil => exact ⟨nil, F, rfl, rfl, h⟩
  | cons x xs ih =>
    cases F with
    | nil => cases h
    | cons label children siblings =>
      obtain ⟨rfl, hsiblings⟩ := List.cons.inj h
      obtain ⟨G, H, rfl, hG, hH⟩ := ih hsiblings
      exact ⟨cons label children G, H, rfl, by simp [roots, hG], hH⟩

end Forest
