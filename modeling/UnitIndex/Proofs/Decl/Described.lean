import Mathlib.Tactic
import UnitIndex.Proofs.Decl.Lookup

/-!
Where the entries of a table come from.

Every entry of the table of a tree is what `describe` says about a declaration of the tree, finished
by the later passes. A property that does not look at what these put in therefore holds of every
entry if it holds of the descriptions (`holds_build`). So parameters are local, and where no two
nodes have the same id, the entry of a node is of the kind of the node (`kind_of_get?_build`).
-/

namespace UnitIndex.DeclTable

variable {names : FileNames} {root : Node}

/-- What holds of the descriptions of the declarations of a tree, and of what comes of them in the
later passes, holds of the entries of its table. -/
lemma holds_build (Q : DeclInfo → Prop) (hlast : ∀ {f d}, Finishes f → Q d → Q (f d))
    (hdescribes : Describes names Q root) {id : NodeId} {d : DeclInfo}
    (h : (build names root).get? id = some d) : Q d := by
  -- recording puts in a description, and the later passes finish what is there
  have hkept : Kept Q fun t => ∀ id d, t.get? id = some d → Q d :=
    { record := by
        intro t info hinfo ht id d hd
        rcases get?_record t info id with heq | ⟨-, heq⟩
        · exact ht id d (heq ▸ hd)
        · obtain rfl := Option.some.inj (heq.symm.trans hd)
          exact hinfo
      update := by
        intro t k f hf ht id d hd
        rw [get?_update] at hd
        split at hd
        · obtain ⟨known, hknown, rfl⟩ := Option.map_eq_some_iff.mp hd
          exact hlast hf (ht id known hknown)
        · exact ht id d hd
      define := by
        intro t chain k ht id d hd
        exact ht id d (get?_define t chain k id ▸ hd) }
  have hempty : ∀ id d, ({} : DeclTable).get? id = some d → Q d := by simp [get?]
  rw [(listsNames_build names root).get?] at h
  exact hkept.linked hempty hdescribes id d h

/-- An entry is of the kind of a node of the tree that has its id. -/
lemma exists_node_of_get?_build {id : NodeId} {d : DeclInfo}
    (h : (build names root).get? id = some d) :
    ∃ n ∈ root.nodes, n.id = id ∧ ∃ data, n.content = .decl d.kind data := by
  rw [← (consistent_build names root).id_eq h]
  refine holds_build
    (fun d => ∃ n ∈ root.nodes, n.id = d.id ∧ ∃ data, n.content = .decl d.kind data)
    (fun {f d} hf hd => ?_) (fun m hm kind data hcontent t scope => ?_) h
  · obtain ⟨name, isDefinition, pattern, heq⟩ := hf d
    rw [heq]
    exact hd
  · exact ⟨m, hm, rfl, data, hcontent⟩

/-- Where no two nodes have the same id, the entry of a declaration is of its kind. -/
lemma kind_of_get?_build {n : Node} (hids : root.ids.Nodup) (hn : n ∈ root.nodes)
    {kind : DeclKind} {data : DeclData} (hcontent : n.content = .decl kind data) {d : DeclInfo}
    (h : (build names root).get? n.id = some d) : d.kind = kind := by
  obtain ⟨m, hm, hid, data', hcontent'⟩ := exists_node_of_get?_build h
  obtain rfl := List.inj_on_of_nodup_map hids hm hn hid
  obtain ⟨hkind, -⟩ := Content.decl.inj (hcontent'.symm.trans hcontent)
  exact hkind

/-- Parameters are local. -/
lemma isLocal_of_get?_build {id : NodeId} {d : DeclInfo}
    (h : (build names root).get? id = some d) : d.cls = .parameter → d.isLocal := by
  refine holds_build (fun d => d.cls = .parameter → d.isLocal) (fun {f d} hf hd => ?_)
    (fun m hm kind data hcontent t scope hcls => ?_) h
  · obtain ⟨name, isDefinition, pattern, heq⟩ := hf d
    rw [heq]
    exact hd
  · have hkind : DeclClass.ofKind kind = .parameter := hcls
    rw [describe]
    dsimp only
    rw [hkind]

end UnitIndex.DeclTable
