import Mathlib
import UnitIndex.Proofs.Decl.Lookup
import UnitIndex.Proofs.Types.Building
import UnitIndex.Proofs.Types.Resolution

/-!
Resolving types one after the other.

A table is kept while one type after the other is resolved, so that the answer for a type could
depend on those before it.

* `resolveWritten_history`: it does not, if no canonical type of the history was nested so deep that
  it was cut off, and if the rules lead to an answer from what the type at hand means. Typedefs in
  the history may well lead back to themselves: what is built around such a circle is kept too, but
  nothing asks for it that does not depend on the circle itself.
* `resolveWritten_remembers`: without the proviso on the type at hand it does. What a typedef stands
  for that leads back to itself is cut off where the circle closes, and that is at another place for
  every type with which it is entered; the table remembers the first.

A canonical type that was cut off itself is not kept, but those around it are, which is why the
history must not cut off any.
-/

namespace UnitIndex

/-- Followed on trees, the rules lead from the written type to that answer. -/
def Resolves (decls : DeclTable) (maxDepth : Nat) (written : WrittenType)
    (found : Option NodeId) : Prop :=
  ∃ tree, Means decls written tree ∧ tree.resolveWithin maxDepth [] = some found

namespace TypeTable

/-- The table behind a history of written types that are resolved one after the other. -/
def behind (decls : DeclTable) (maxDepth : Nat) : TypeTable → List WrittenType → TypeTable
  | t, [] => t
  | t, v :: vs => behind decls maxDepth ((resolveWritten decls maxDepth v).run t).2 vs

/-- No canonical type that is asked for in the history is nested too deep. -/
def NeverCut (decls : DeclTable) (maxDepth : Nat) : TypeTable → List WrittenType → Prop
  | _, [] => True
  | t, v :: vs =>
    let r := (writtenType decls v).run t
    ((r.2.tree r.1).resolveWithin maxDepth []).isSome ∧
      NeverCut decls maxDepth ((resolveWritten decls maxDepth v).run t).2 vs

section

variable {decls : DeclTable} {maxDepth : Nat} {t : TypeTable} {found : Option NodeId}

/-- Nothing in an empty table is false. -/
lemma sound_empty (means : WrittenType → TypeTree → Prop) : Sound means {} := by
  refine ⟨⟨?_, ?_⟩, ?_, ?_⟩
  · intro id p hp
    exact absurd hp (by simp [form, TypeForm.parts])
  · intro form id
    simp [size]
  · intro w q hw
    exact absurd hw (by simp)
  · intro q c hc
    exact absurd hc (by simp)

/-- The answer is the one that the rules lead to from the type that was built. -/
lemma keeps_resolveWritten (hE : t.expanding = []) {written : WrittenType}
    (h : ∀ t' q, (writtenType decls written).run t = (q, t') →
      Stands t' q (Means decls written) → (t'.tree q).resolveWithin maxDepth [] = some found) :
    Keeps (Means decls) t (fun _ answer => answer = found)
      (resolveWritten decls maxDepth written) := by
  intro ht
  have hout := keeps_writtenType hE written ht
  have hfound := h _ _ rfl hout.result
  have hnone (t' : TypeTable) : DenotesAll t' (([] : List TypeId).map (⟨·, {}⟩)) [] :=
    denotesAll_nil t'
  have hresolve := keeps_resolveWithin maxDepth ⟨hout.result.1, rfl⟩ (hnone _) hfound hout.sound
  exact ⟨hresolve.sound, hout.grown.trans hresolve.grown,
    hresolve.expanding.trans hout.expanding, hresolve.result⟩

/-- What a type resolves to is found from every sound table. -/
lemma keeps_resolveWritten_of_resolves (hE : t.expanding = []) {written : WrittenType}
    (h : Resolves decls maxDepth written found) :
    Keeps (Means decls) t (fun _ answer => answer = found)
      (resolveWritten decls maxDepth written) := by
  obtain ⟨tree, hmeans, hfound⟩ := h
  refine keeps_resolveWritten hE fun t' q _ hq => ?_
  rw [hq.2 tree hmeans]
  exact hfound

/-- A history in which nothing is cut off leaves nothing behind that is not true. -/
lemma sound_behind {history : List WrittenType} (ht : Sound (Means decls) t)
    (hE : t.expanding = []) (h : NeverCut decls maxDepth t history) :
    Sound (Means decls) (behind decls maxDepth t history) ∧
      (behind decls maxDepth t history).expanding = [] := by
  induction history generalizing t with
  | nil => exact ⟨ht, hE⟩
  | cons v vs ih =>
      obtain ⟨hv, hvs⟩ := h
      obtain ⟨found, hfound⟩ := Option.isSome_iff_exists.mp hv
      have hkeeps : Keeps (Means decls) t (fun _ answer => answer = found)
          (resolveWritten decls maxDepth v) := by
        refine keeps_resolveWritten hE fun t' q hrun _ => ?_
        rw [hrun] at hfound
        exact hfound
      have hout := hkeeps ht
      exact ih hout.sound (hout.expanding.trans hE) hvs

end

/-- **A type is resolved alike behind any history** in which no canonical type is cut off: from the
table that the history leaves behind the answer is the same as from an empty one, the answer to
which the rules lead from what the type means. -/
theorem resolveWritten_history (decls : DeclTable) (maxDepth : Nat) (history : List WrittenType)
    (written : WrittenType) (found : Option NodeId)
    (hhistory : NeverCut decls maxDepth {} history)
    (hwritten : Resolves decls maxDepth written found) :
    ((resolveWritten decls maxDepth written).run (behind decls maxDepth {} history)).1 =
        ((resolveWritten decls maxDepth written).run {}).1 ∧
      ((resolveWritten decls maxDepth written).run {}).1 = found := by
  have hempty := keeps_resolveWritten_of_resolves rfl hwritten (sound_empty _)
  obtain ⟨hsound, hE⟩ := sound_behind (sound_empty _) rfl hhistory
  have hbehind := keeps_resolveWritten_of_resolves hE hwritten hsound
  exact ⟨hbehind.result.trans hempty.result.symm, hempty.result⟩

/-- A structure `S`, and two typedefs `A` and `B` that lead to each other through the alias template
`X`. -/
def roundabout : DeclTable :=
  let typedef (name : String) (type : WrittenType) : Content :=
    .decl .typedef { name := some name, type := some type }
  .build ⟨"", ⟨"/"⟩, fun _ => none⟩ ⟨⟨1⟩, .decl .translationUnit {}, [
    ⟨⟨2⟩, .decl .record { name := some "S", tagUsed := some "struct" }, []⟩,
    ⟨⟨3⟩, .decl .typeAliasTemplate { name := some "X" }, [
      ⟨⟨4⟩, .decl .typeAlias { name := some "X" }, []⟩]⟩,
    ⟨⟨5⟩, typedef "A" { qualType := some "::X<int>", desugared := some "::B" }, []⟩,
    ⟨⟨6⟩, typedef "B" { qualType := some "::A" }, []⟩]⟩

lemma writtenType_roundabout (written : WrittenType) :
    writtenType roundabout written =
      writtenTypeWith (expandWithin roundabout 7) roundabout written := by
  have hsize : roundabout.size = 6 := by
    rw [roundabout, (DeclTable.consistent_build _ _).size_eq]
    cbv
  show writtenTypeWith (expandWithin roundabout (roundabout.size + 1)) roundabout written = _
  rw [hsize]

/-- The structure is found behind a type that leads around the circle. -/
theorem resolveWritten_history_roundabout :
    ((resolveWritten roundabout 32 { qualType := some "::S *" }).run
        (behind roundabout 32 {} [{ qualType := some "const ::A" }])).1 =
      ((resolveWritten roundabout 32 { qualType := some "::S *" }).run {}).1 ∧
    ((resolveWritten roundabout 32 { qualType := some "::S *" }).run {}).1 = some ⟨2⟩ := by
  refine resolveWritten_history roundabout 32 _ _ _ ?_ ?_
  · simp only [NeverCut, writtenType_roundabout]
    cbv
  · let record : TypeTree := .node (.record ⟨2⟩ (some .struct) false) {} []
    refine ⟨.node (.pointer default) {} [record], ⟨0, ?_⟩, ?_⟩
    · cbv
    · cbv

/-- The answer for a type may depend on the types before it: asked for first, `A` is the template
`X`; behind `const A` it is nothing. -/
theorem resolveWritten_remembers :
    ¬∀ (decls : DeclTable) (maxDepth : Nat) (history : List WrittenType) (written : WrittenType),
      ((resolveWritten decls maxDepth written).run (behind decls maxDepth {} history)).1 =
        ((resolveWritten decls maxDepth written).run {}).1 := by
  intro h
  have hfirst : ((resolveWritten roundabout 32 { qualType := some "::A" }).run {}).1 =
      some ⟨3⟩ := by
    rw [resolveWritten, writtenType_roundabout]
    cbv
  have hbehind : ((resolveWritten roundabout 32 { qualType := some "::A" }).run
      (behind roundabout 32 {} [{ qualType := some "const ::A" }])).1 = none := by
    simp only [behind, resolveWritten, writtenType_roundabout]
    cbv
  have heq := h roundabout 32 [{ qualType := some "const ::A" }] { qualType := some "::A" }
  rw [hfirst, hbehind] at heq
  exact absurd heq (by simp)

end TypeTable

end UnitIndex
