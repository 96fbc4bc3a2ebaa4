import SecScan.Proofs.Flow.PhiPlacement
import SecScan.Proofs.Keyed
import SecScan.Proofs.Syntax.Walk

/-!
What renaming does to a block and along the dominator tree. The versions that hold after a phi or an
item are those before it, overwritten by what it makes (`phis_holding`, `items_get`). Every block of
the tree is visited once (`renameTree_blocks`), starting from what holds at the end of its parent
(`visit_origin`), and the counts of the versions made so far only grow, so that no version is made
twice (`Fresh.tree`). A name of an item is read (`Item.mem_reads`) unless it stands in what the item
binds or in a hint (`Item.mem_reads_or_skips`).
-/

namespace SecScan.Flow

open List

variable {p n : Node} {e : Holding} {ps : List (String × Version)} {x : RenamedItem}
variable (r : Renaming) {i : Item} {o : Occurrence} {w : Occurrence × Version}

/-! ## Names that are read -/

section

open Syntax Node

theorem readLevels_eq (fuel : Nat) (ns : List Node) : readLevels fuel ns = levelsBy readChildren fuel ns := by
  induction fuel generalizing ns with
  | zero => rfl
  | succ fuel ih => simp [readLevels, levelsBy, ih]

theorem readChildren_subset (n : Node) : readChildren n ⊆ n.children := by cases n <;> simp [readChildren]

namespace Item

theorem mem_readParts (h : p ∈ i.readParts) : p = i.node ∨ p ∈ i.node.children := by
  unfold readParts at h
  split at h <;> simp_all [node, children, Stmt.children]

theorem height_readParts (i : Item) : ∀ p ∈ i.readParts, p.height ≤ i.node.height := by
  intro p hp
  rcases mem_readParts hp with rfl | hp
  · exact Nat.le_refl _
  · exact Nat.le_of_lt (height_lt_of_mem_children hp)

theorem mem_reads :
    o ∈ i.reads ↔ ∃ p ∈ i.readParts, ∃ n, Below readChildren p n ∧ occurrence? n = some o := by
  simp only [reads, occurrencesIn, readLevels_eq, mem_filterMap,
    mem_levelsBy readChildren_subset i.height_readParts]
  constructor
  · rintro ⟨n, ⟨p, hp, hn⟩, ho⟩
    exact ⟨p, hp, n, hn, ho⟩
  · rintro ⟨p, hp, n, hn, ho⟩
    exact ⟨n, ⟨p, hp, hn⟩, ho⟩

/-- What is read stands in the item. -/
theorem exists_of_mem_reads (h : o ∈ i.reads) : ∃ n, Below children i.node n ∧ occurrence? n = some o := by
  obtain ⟨p, hp, n, hn, ho⟩ := mem_reads.mp h
  have hroot : Below children i.node p := by
    rcases mem_readParts hp with rfl | hp
    · exact .self
    · exact .child .self hp
  have hbelow : Below children i.node n := by
    clear ho
    induction hn with
    | self => exact hroot
    | child _ hk ih => exact ih.child (readChildren_subset _ hk)
  exact ⟨n, hbelow, ho⟩

/-- Parts of an item in which no name is read: what it binds, hints, and the blocks of a loop. -/
def passedOver : Item → List Node
  | .stmt (.assign _ ts _ _) => exprs ts
  | .stmt (.annAssign _ t hint _ _) => [.expr t, .expr hint]
  | .stmt (.augAssign _ (.name l n c) _ _) => [.expr (.name l n c)]
  | .stmt (.forLoop _ _ t _ body orelse _) => .expr t :: stmts body ++ stmts orelse
  | .arg a => (Node.arg a).children
  | .expr (.name l n .store) => [.expr (.name l n .store)]
  | _ => []

/-- The node stands in a part that is passed over, or in the hint of a parameter. -/
def Skips (i : Item) (n : Node) : Prop :=
  (∃ p ∈ i.passedOver, Below children p n) ∨
    ∃ a, ∃ hint ∈ (Node.arg a).children, Below children i.node (.arg a) ∧ Below children hint n

/-- An item is read as a whole, or passed over, or its parts are one or the other. -/
theorem parts (i : Item) : i.node ∈ i.readParts ∨ i.node ∈ i.passedOver ∨
    (occurrence? i.node = none ∧ ∀ m ∈ i.node.children, m ∈ i.readParts ∨ m ∈ i.passedOver) := by
  have hchildren {s : Stmt} : (Item.stmt s).node.children = s.children := rfl
  unfold readParts
  split
  case h_6 => exact .inr (.inr ⟨rfl, fun _ hm => .inr hm⟩)
  case h_7 => exact .inr (.inl (by simp [node, passedOver]))
  case h_8 => exact .inl (by simp [node])
  case h_9 => exact .inl (by simp [node])
  all_goals
    refine .inr (.inr ⟨rfl, fun m hm => ?_⟩)
    simp only [hchildren, Stmt.children, passedOver, mem_append, mem_cons] at hm ⊢
    grind

end Item

/-- What is below a node is read with it or stands in the hint of a parameter. -/
theorem below_readChildren (h : Below children p n) : Below readChildren p n ∨
    ∃ a, ∃ hint ∈ (Node.arg a).children, Below children p (.arg a) ∧ Below children hint n := by
  induction h with
  | self => exact .inl .self
  | @child m k hm hk ih =>
    rcases ih with ih | ⟨a, hint, hhint, ha, hbelow⟩
    · cases m with
      | arg a => exact .inr ⟨a, k, hk, hm, .self⟩
      | _ => exact .inl (ih.child hk)
    · exact .inr ⟨a, hint, hhint, ha, hbelow.child hk⟩

/-- Every name that stands in an item is read, or it stands where names are passed over. -/
theorem Item.mem_reads_or_skips (h : Below children i.node n)
    (ho : occurrence? n = some o) : o ∈ i.reads ∨ i.Skips n := by
  have hpart : ∀ p ∈ i.readParts, (∀ m, Below children p m → Below children i.node m) →
      Below children p n → o ∈ i.reads ∨ i.Skips n := by
    intro p hp hin hn
    rcases below_readChildren hn with hn | ⟨a, hint, hhint, ha, hn⟩
    · exact .inl (mem_reads.mpr ⟨p, hp, n, hn, ho⟩)
    · exact .inr (.inr ⟨a, hint, hhint, hin _ ha, hn⟩)
  rcases i.parts with hread | hpassed | ⟨hnone, hsplit⟩
  · exact hpart _ hread (fun _ hm => hm) h
  · exact .inr (.inl ⟨_, hpassed, h⟩)
  · rcases below_iff.mp h with rfl | ⟨m, hm, hn⟩
    · simp [hnone] at ho
    · rcases hsplit m hm with hread | hpassed
      · exact hpart m hread (fun _ hk => hk.head hm) hn
      · exact .inr (.inl ⟨m, hpassed, hn⟩)

end

/-! ## Versions that hold -/

/-- The version of each variable that holds at a point, if there is one. -/
abbrev Holding := String → Option Version

namespace Holding

def set (e : Holding) (v : String) (x : Version) : Holding := fun w => if w = v then some x else e w

def setAll (e : Holding) (ps : List (String × Version)) : Holding := ps.foldl (fun e p => e.set p.1 p.2) e

def read (e : Holding) (v : String) : Version := (e v).getD (.undefined v)

theorem setAll_append (e : Holding) (ps qs : List (String × Version)) :
    e.setAll (ps ++ qs) = (e.setAll ps).setAll qs := foldl_append

/-- Where a variable is overwritten, what held before does not matter. -/
theorem setAll_congr {e' : Holding} {w : String} (ps : List (String × Version))
    (h : e w = e' w ∨ w ∈ ps.map (·.1)) : e.setAll ps w = e'.setAll ps w := by
  induction ps generalizing e e' with
  | nil => exact h.resolve_right (by simp)
  | cons p ps ih =>
    refine ih ?_
    by_cases hw : w = p.1
    · exact .inl (by simp [set, hw])
    · rcases h with h | h
      · exact .inl (by simp [set, hw, h])
      · rcases mem_cons.mp h with h | h
        · exact absurd h hw
        · exact .inr h

theorem setAll_of_not_mem {w : String}
    (h : w ∉ ps.map (·.1)) : e.setAll ps w = e w := by
  induction ps generalizing e with
  | nil => rfl
  | cons p ps ih =>
    simp only [map_cons, mem_cons, not_or] at h
    have hrest : (e.set p.1 p.2).setAll ps w = e.set p.1 p.2 w := ih h.2
    rw [setAll, foldl_cons]
    exact hrest.trans (by simp [set, h.1])

theorem setAll_mem {w : String}
    (h : w ∈ ps.map (·.1)) : ∃ x, (w, x) ∈ ps ∧ e.setAll ps w = some x := by
  induction ps generalizing e with
  | nil => simp at h
  | cons p ps ih =>
    by_cases hw : w ∈ ps.map (·.1)
    · obtain ⟨x, hx, heq⟩ := @ih (e.set p.1 p.2) hw
      exact ⟨x, mem_cons_of_mem _ hx, heq⟩
    · obtain rfl : w = p.1 := (mem_cons.mp h).resolve_right hw
      refine ⟨p.2, mem_cons_self, ?_⟩
      rw [setAll, foldl_cons]
      exact (setAll_of_not_mem hw).trans (by simp [set])

end Holding

/-- The versions that the latest numbers stand for. -/
def Latest.holding (l : Latest) : Holding := fun v => (l.lookup v).map (.made v)

theorem Latest.version_eq_read (l : Latest) (v : String) : l.version v = l.holding.read v := by
  unfold Latest.version Holding.read Latest.holding
  cases l.lookup v <;> rfl

/-! ## Renaming one block -/

namespace Renaming

theorem bind_holding (v : String) : (r.bind v).1.current.holding = r.current.holding.set v (r.bind v).2 := by
  funext w
  simp only [bind, Latest.holding, Holding.set, lookup_putField]
  split
  · rename_i h
    simp [h]
  · rfl

theorem phis_cons (v : String) (vs : List String) :
    r.phis (v :: vs) = (((r.bind v).1.phis vs).1, (v, (r.bind v).2) :: ((r.bind v).1.phis vs).2) := rfl

theorem bindAll_cons (o : Occurrence) (os : List Occurrence) :
    r.bindAll (o :: os) = (((r.bind o.name).1.bindAll os).1,
      (o, (r.bind o.name).2) :: ((r.bind o.name).1.bindAll os).2) := rfl

theorem items_cons (i : Item) (is : List Item) :
    r.items (i :: is) = (((r.item i).1.items is).1, (r.item i).2 :: ((r.item i).1.items is).2) := rfl

theorem phis_vars (vs : List String) : (r.phis vs).2.map (·.1) = vs := by
  induction vs generalizing r with
  | nil => rfl
  | cons v vs ih => rw [phis_cons, map_cons, ih]

theorem bindAll_occurrences (os : List Occurrence) : (r.bindAll os).2.map (·.1) = os := by
  induction os generalizing r with
  | nil => rfl
  | cons o os ih => rw [bindAll_cons, map_cons, ih]

theorem bindAll_made (os : List Occurrence) (hw : w ∈ (r.bindAll os).2) : ∃ k, w.2 = .made w.1.name k := by
  induction os generalizing r with
  | nil => cases hw
  | cons o os ih =>
    rw [bindAll_cons] at hw
    rcases mem_cons.mp hw with rfl | hw
    · exact ⟨_, rfl⟩
    · exact ih _ hw

theorem phis_holding (vs : List String) :
    (r.phis vs).1.current.holding = r.current.holding.setAll (r.phis vs).2 := by
  induction vs generalizing r with
  | nil => rfl
  | cons v vs ih =>
    rw [phis_cons, ih, bind_holding]
    rfl

end Renaming

/-- What an item binds, by name. -/
def RenamedItem.bound (i : RenamedItem) : List (String × Version) := i.writes.map fun w => (w.1.name, w.2)

def Holding.after (e : Holding) (is : List RenamedItem) : Holding := e.setAll (is.flatMap RenamedItem.bound)

namespace Renaming

theorem bindAll_holding (os : List Occurrence) : (r.bindAll os).1.current.holding =
      r.current.holding.setAll ((r.bindAll os).2.map fun w => (w.1.name, w.2)) := by
  induction os generalizing r with
  | nil => rfl
  | cons o os ih =>
    rw [bindAll_cons, ih, bind_holding]
    rfl

theorem item_holding (i : Item) :
    (r.item i).1.current.holding = r.current.holding.setAll (r.item i).2.bound :=
  bindAll_holding r i.binds

variable (is : List Item)

theorem items_holding : (r.items is).1.current.holding = r.current.holding.after (r.items is).2 := by
  induction is generalizing r with
  | nil => rfl
  | cons i is ih =>
    rw [items_cons, ih, item_holding, Holding.after, Holding.after, flatMap_cons, Holding.setAll_append]

/-- A renamed item reads what holds after the items before it. -/
theorem items_get {r : Renaming} {is : List Item} {k : Nat}
    (h : (r.items is).2[k]? = some x) :
    is[k]? = some x.item ∧ x.writes.map (·.1) = x.item.binds ∧ x.reads = x.item.reads.map fun o =>
        (o, (r.current.holding.after ((r.items is).2.take k)).read o.name) := by
  induction is generalizing r k with
  | nil => simp [items] at h
  | cons i is ih =>
    rw [items_cons] at h ⊢
    cases k with
    | zero =>
      obtain rfl : (r.item i).2 = x := by simpa using h
      refine ⟨rfl, bindAll_occurrences r i.binds, ?_⟩
      simp [item, Latest.version_eq_read, Holding.after, Holding.setAll]
    | succ k =>
      obtain ⟨hi, hw, hr⟩ := ih (by simpa using h)
      refine ⟨by simpa using hi, hw, ?_⟩
      rw [hr, item_holding, take_succ_cons, Holding.after, Holding.after, flatMap_cons, Holding.setAll_append]

theorem items_made (hx : x ∈ (r.items is).2)
    (hw : w ∈ x.writes) : ∃ k, w.2 = .made w.1.name k := by
  induction is generalizing r with
  | nil => cases hx
  | cons i is ih =>
    rw [items_cons] at hx
    rcases mem_cons.mp hx with rfl | hx
    · exact bindAll_made r i.binds hw
    · exact ih _ hx

theorem items_take (k : Nat) : (r.items is).2.take k = (r.items (is.take k)).2 := by
  induction is generalizing r k with
  | nil => simp [items]
  | cons i is ih =>
    cases k with
    | zero => rfl
    | succ k => rw [items_cons, take_succ_cons, take_succ_cons, items_cons, ih]

theorem items_item : (r.items is).2.map (·.item) = is := by
  induction is generalizing r with
  | nil => rfl
  | cons i is ih => rw [items_cons, map_cons, ih]; rfl

end Renaming

/-! ## Renaming along the tree -/

section tree

variable (phiVars : Nat → List String) (items : Nat → List Item)

def renamedBlock (r : Renaming) (b : Nat) : Renaming := ((r.phis (phiVars b)).1.items (items b)).1

def visitOf (r : Renaming) (b : Nat) : Visit :=
  { block := b, phis := (r.phis (phiVars b)).2, items := ((r.phis (phiVars b)).1.items (items b)).2
    final := (renamedBlock phiVars items r b).current }

theorem renameTree_node (b : Nat) (ts : List Tree) : renameTree phiVars items r (.node b ts) =
      (visitOf phiVars items r b :: (renameForest phiVars items (renamedBlock phiVars items r b) ts).1,
        (renameForest phiVars items (renamedBlock phiVars items r b) ts).2) := by
  rw [renameTree]
  rfl

theorem renameForest_cons (t : Tree) (ts : List Tree) : renameForest phiVars items r (t :: ts) =
      ((renameTree phiVars items r t).1 ++
          (renameForest phiVars items { r with counts := (renameTree phiVars items r t).2 } ts).1,
        (renameForest phiVars items { r with counts := (renameTree phiVars items r t).2 } ts).2) := by
  rw [renameForest]

/-- The visit starts from these versions, whatever was counted before. -/
def Visit.StartsFrom (e : Latest) (x : Visit) : Prop :=
  ∃ counts, x = visitOf phiVars items ⟨e, counts⟩ x.block

variable (children : Nat → List Nat)

/-- A visit starts from what held above the tree, or from the end of a visit that it is a child of. -/
theorem visit_origin (fuel : Nat) (r : Renaming) (b : Nat) {x : Visit}
    (hx : x ∈ (renameTree phiVars items r (Tree.grow children fuel b)).1) :
    (x.block = b ∧ x.StartsFrom phiVars items r.current) ∨
      ∃ y ∈ (renameTree phiVars items r (Tree.grow children fuel b)).1,
        x.block ∈ children y.block ∧ x.StartsFrom phiVars items y.final := by
  induction fuel generalizing r b x with
  | zero =>
    simp only [Tree.grow, renameTree_node, renameForest, mem_singleton] at hx
    exact .inl ⟨by rw [hx]; rfl, r.counts, by rw [hx]; rfl⟩
  | succ fuel ih =>
    have hforest : ∀ (cs : List Nat) (r : Renaming) {x : Visit},
        x ∈ (renameForest phiVars items r (cs.map (Tree.grow children fuel))).1 →
        (x.block ∈ cs ∧ x.StartsFrom phiVars items r.current) ∨
          ∃ y ∈ (renameForest phiVars items r (cs.map (Tree.grow children fuel))).1,
            x.block ∈ children y.block ∧ x.StartsFrom phiVars items y.final := by
      intro cs
      induction cs with
      | nil =>
        intro r x hx
        simp [renameForest] at hx
      | cons c cs ihc =>
        intro r x hx
        rw [map_cons, renameForest_cons] at hx ⊢
        rcases mem_append.mp hx with hx | hx
        · rcases ih r c hx with ⟨hb, hs⟩ | ⟨y, hy, hc, hs⟩
          · exact .inl ⟨by simp [hb], hs⟩
          · exact .inr ⟨y, mem_append_left _ hy, hc, hs⟩
        · rcases ihc _ hx with ⟨hb, hs⟩ | ⟨y, hy, hc, hs⟩
          · exact .inl ⟨mem_cons_of_mem _ hb, hs⟩
          · exact .inr ⟨y, mem_append_right _ hy, hc, hs⟩
    rw [Tree.grow, renameTree_node] at hx ⊢
    rcases mem_cons.mp hx with rfl | hx
    · exact .inl ⟨rfl, r.counts, rfl⟩
    · rcases hforest _ _ hx with ⟨hb, hs⟩ | ⟨y, hy, hc, hs⟩
      · exact .inr ⟨_, mem_cons_self, hb, hs⟩
      · exact .inr ⟨y, mem_cons_of_mem _ hy, hc, hs⟩

theorem renameTree_blocks (fuel : Nat) (r : Renaming) (b : Nat) :
    (renameTree phiVars items r (Tree.grow children fuel b)).1.map (·.block) = grown children fuel b := by
  induction fuel generalizing r b with
  | zero => simp [Tree.grow, renameTree_node, renameForest, grown, visitOf]
  | succ fuel ih =>
    have hforest : ∀ (cs : List Nat) (r : Renaming),
        (renameForest phiVars items r (cs.map (Tree.grow children fuel))).1.map (·.block) =
          cs.flatMap (grown children fuel) := by
      intro cs
      induction cs with
      | nil => intro r; simp [renameForest]
      | cons c cs ihc =>
        intro r
        rw [map_cons, renameForest_cons, map_append, ih, ihc, flatMap_cons]
    rw [Tree.grow, renameTree_node, map_cons, hforest]
    rfl

end tree

/-! ## Versions are made once -/

def Latest.count (l : Latest) (v : String) : Nat := (l.lookup v).getD 0

/-- Versions made while the counts went from `lo` to `hi`, each once. -/
structure Fresh (lo hi : Latest) (vs : List Version) : Prop where
  le : ∀ v, lo.count v ≤ hi.count v
  nodup : vs.Nodup
  made : ∀ x ∈ vs, ∃ v n, x = .made v n ∧ lo.count v < n ∧ n ≤ hi.count v

namespace Fresh

variable {a b c : Latest} {xs ys : List Version}

theorem nil (a : Latest) : Fresh a a [] := ⟨fun _ => Nat.le_refl _, nodup_nil, by simp⟩

theorem append (h1 : Fresh a b xs) (h2 : Fresh b c ys) : Fresh a c (xs ++ ys) where
  le v := Nat.le_trans (h1.le v) (h2.le v)
  nodup := by
    refine nodup_append.mpr ⟨h1.nodup, h2.nodup, ?_⟩
    rintro x hx _ hy rfl
    obtain ⟨v, n, rfl, -, hn⟩ := h1.made x hx
    obtain ⟨w, m, heq, hm, -⟩ := h2.made _ hy
    obtain ⟨rfl, rfl⟩ : v = w ∧ n = m := by simpa using heq
    omega
  made x hx := by
    rcases mem_append.mp hx with hx | hx
    · obtain ⟨v, n, rfl, hlo, hhi⟩ := h1.made x hx
      exact ⟨v, n, rfl, hlo, Nat.le_trans hhi (h2.le v)⟩
    · obtain ⟨v, n, rfl, hlo, hhi⟩ := h2.made x hx
      exact ⟨v, n, rfl, Nat.lt_of_le_of_lt (h1.le v) hlo, hhi⟩

theorem bind (v : String) : Fresh r.counts (r.bind v).1.counts [(r.bind v).2] where
  le w := by
    simp only [Renaming.bind, Latest.count, lookup_putField]
    split
    · rename_i h
      rw [h]
      simp
    · exact Nat.le_refl _
  nodup := nodup_singleton _
  made x hx := by
    rw [mem_singleton] at hx
    refine ⟨v, (r.counts.lookup v).getD 0 + 1, hx, Nat.lt_succ_self _, ?_⟩
    simp [Renaming.bind, Latest.count, lookup_putField]

theorem phis (vs : List String) : Fresh r.counts (r.phis vs).1.counts ((r.phis vs).2.map (·.2)) := by
  induction vs generalizing r with
  | nil => exact nil _
  | cons v vs ih => exact (bind r v).append (ih (r.bind v).1)

theorem bindAll (os : List Occurrence) :
    Fresh r.counts (r.bindAll os).1.counts ((r.bindAll os).2.map (·.2)) := by
  induction os generalizing r with
  | nil => exact nil _
  | cons o os ih => exact (bind r o.name).append (ih (r.bind o.name).1)

theorem items (is : List Item) : Fresh r.counts (r.items is).1.counts
    ((r.items is).2.flatMap fun i => i.writes.map (·.2)) := by
  induction is generalizing r with
  | nil => exact nil _
  | cons i is ih => exact (bindAll r i.binds).append (ih (r.item i).1)

end Fresh

def Visit.versions (x : Visit) : List Version :=
  x.phis.map (·.2) ++ x.items.flatMap fun i => i.writes.map (·.2)

/-- A tree of blocks makes every version once, and counts them. -/
theorem Fresh.tree (phiVars : Nat → List String) (items : Nat → List Item) (children : Nat → List Nat)
    (fuel : Nat) (r : Renaming) (b : Nat) :
    Fresh r.counts (renameTree phiVars items r (Tree.grow children fuel b)).2
      ((renameTree phiVars items r (Tree.grow children fuel b)).1.flatMap Visit.versions) := by
  have hvisit : ∀ (r : Renaming) (b : Nat), Fresh r.counts (renamedBlock phiVars items r b).counts
      (visitOf phiVars items r b).versions :=
    fun r b => (Fresh.phis r (phiVars b)).append (Fresh.items _ (items b))
  induction fuel generalizing r b with
  | zero => simpa [Tree.grow, renameTree_node, renameForest] using hvisit r b
  | succ fuel ih =>
    have hforest : ∀ (cs : List Nat) (r : Renaming), Fresh r.counts
        (renameForest phiVars items r (cs.map (Tree.grow children fuel))).2
        ((renameForest phiVars items r (cs.map (Tree.grow children fuel))).1.flatMap
          Visit.versions) := by
      intro cs
      induction cs with
      | nil => intro r; simpa [renameForest] using Fresh.nil r.counts
      | cons c cs ihc =>
        intro r
        rw [map_cons, renameForest_cons, flatMap_append]
        exact (ih r c).append
          (ihc { r with counts := (renameTree phiVars items r (Tree.grow children fuel c)).2 })
    rw [Tree.grow, renameTree_node, flatMap_cons]
    exact (hvisit r b).append (hforest _ _)

end SecScan.Flow
