import Mathlib.Tactic
import UnitIndex.Proofs.Types.Canonical
import UnitIndex.Proofs.Types.Construction

/-!
The building of types comes to an end.

A typedef leads on to the type that is written for it, whose names may be typedefs again, and the
depth in parameter lists starts anew with each of them. What shrinks is the number of known
declarations that are not being expanded (`unexpanded`): a typedef is entered only while it is not,
and is then until its type is there.

The model descends on a number of typedefs that may still be entered. `build_ends` says that this
number is no more than an account: whatever is done where it has run out, and however large it is
beyond the number of declarations, everything that is built is the same, so that it never runs out;
what remains is the bare recursion. Behind every step the typedefs being expanded are those from
before.
-/

namespace UnitIndex.TypeTable

/-- The type behind a typedef, where those inside of it are followed as `follow` says. -/
def enter (follow : NodeId → TypeM QualType) (decls : DeclTable) (decl : NodeId) :
    TypeM QualType := do
  match (decls.get? decl).bind (·.type) with
  | none => unresolved ""
  | some written =>
    if decl ∈ (← get).expanding then unresolved (written.spelling?.getD "")
    else
      modify fun t => { t with expanding := decl :: t.expanding }
      let underlying ← writtenTypeWith follow decls written
      modify fun t => { t with expanding := t.expanding.erase decl }
      return underlying

/-- The type behind a typedef, with so many more typedefs to enter; with one more than that, it is
what `beyond` makes of it. -/
def enterWithin (beyond : NodeId → TypeM QualType) (decls : DeclTable) :
    Nat → NodeId → TypeM QualType
  | 0 => beyond
  | entries + 1 => enter (enterWithin beyond decls entries) decls

/-- The limit of the model is one where nothing is read beyond it. -/
lemma expandWithin_eq_enterWithin (decls : DeclTable) (entries : Nat) :
    expandWithin decls entries = enterWithin (fun _ => unresolved "") decls entries := by
  induction entries with
  | zero => rfl
  | succ entries ih =>
      rw [enterWithin, ← ih]
      rfl

/-! ### What shrinks -/

/-- How many declarations are known that are not being expanded. -/
def unexpanded (decls : DeclTable) (expanding : List NodeId) : Nat :=
  (decls.decls.keys.filter (· ∉ expanding)).length

variable {decls : DeclTable} {E : List NodeId} {decl : NodeId}

/-- There are no more of them than declarations. -/
lemma unexpanded_le (decls : DeclTable) (E : List NodeId) : unexpanded decls E ≤ decls.size := by
  have hle := List.length_filter_le (fun d => decide (d ∉ E)) decls.decls.keys
  rwa [Std.HashMap.length_keys] at hle

/-- Entering a typedef leaves fewer declarations that are not being expanded. -/
lemma unexpanded_cons_lt {written : WrittenType}
    (hwritten : (decls.get? decl).bind (·.type) = some written) (hnew : decl ∉ E) :
    unexpanded decls (decl :: E) < unexpanded decls E := by
  have hmem : decl ∈ decls.decls.keys := by
    obtain ⟨d, hd, -⟩ := Option.bind_eq_some_iff.mp hwritten
    rw [Std.HashMap.mem_keys, ← Std.HashMap.isSome_getElem?_iff_mem]
    show (decls.get? decl).isSome
    rw [hd]
    rfl
  have hsub : decls.decls.keys.filter (· ∉ decl :: E) =
      (decls.decls.keys.filter (· ∉ E)).filter (· ≠ decl) := by
    rw [List.filter_filter]
    refine List.filter_congr fun d _ => ?_
    simp
  rw [unexpanded, unexpanded, hsub]
  refine List.length_filter_lt_length_iff_exists.mpr ⟨decl, ?_, by simp⟩
  exact List.mem_filter.mpr ⟨hmem, by simpa using hnew⟩

/-! ### Following typedefs -/

/-- What entering a typedef does to a table. -/
lemma run_enter (follow : NodeId → TypeM QualType) (decls : DeclTable) (decl : NodeId)
    (t : TypeTable) :
    (enter follow decls decl).run t =
      match (decls.get? decl).bind (·.type) with
      | none => (unresolved "").run t
      | some written =>
        if decl ∈ t.expanding then (unresolved (written.spelling?.getD "")).run t
        else
          let r := (writtenTypeWith follow decls written).run
            { t with expanding := decl :: t.expanding }
          (r.1, { r.2 with expanding := r.2.expanding.erase decl }) := by
  have hget : (get : TypeM TypeTable).run t = (t, t) := rfl
  rw [enter]
  cases (decls.get? decl).bind (·.type) with
  | none => rfl
  | some written =>
      dsimp only
      rw [run_bind, hget]
      dsimp only
      split <;> rfl

/-- A spelling that is kept as it stands expands nothing. -/
lemma unresolved_expanding (spelling : String) (t : TypeTable) :
    ((unresolved spelling).run t).2.expanding = t.expanding :=
  Construction.intern_expanding _ t

section

variable {beyond beyond' : NodeId → TypeM QualType} {entries entries' : Nat} {t : TypeTable}

/-- A typedef that has been entered is left again. -/
lemma enterWithin_expanding (hleft : unexpanded decls E < entries) (ht : t.expanding = E) :
    ((enterWithin beyond decls entries decl).run t).2.expanding = E := by
  induction entries generalizing t decl E with
  | zero => exact absurd hleft (Nat.not_lt_zero _)
  | succ entries ih =>
      rw [enterWithin, run_enter]
      cases hwritten : (decls.get? decl).bind (·.type) with
      | none => exact (unresolved_expanding _ t).trans ht
      | some written =>
          dsimp only
          split
          · exact (unresolved_expanding _ t).trans ht
          · next hnew =>
              rw [ht] at hnew ⊢
              -- one declaration less is left, so that the limit is kept inside as well
              have hless := unexpanded_cons_lt hwritten hnew
              have hbuild : Construction decls fun follow => writtenTypeWith follow decls written :=
                .writtenTypeWith written
              have hinner : ((writtenTypeWith (enterWithin beyond decls entries) decls written).run
                  { t with expanding := decl :: E }).2.expanding = decl :: E :=
                hbuild.expanding (fun d t' ht' => ih (by omega) ht') rfl
              dsimp only
              rw [hinner, List.erase_cons_head]

/-- What lies beyond the limit makes no difference, nor does the limit, if it is not below the
number of declarations that are not being expanded. -/
lemma enterWithin_congr (hleft : unexpanded decls E < entries)
    (hleft' : unexpanded decls E < entries') (ht : t.expanding = E) :
    (enterWithin beyond decls entries decl).run t =
      (enterWithin beyond' decls entries' decl).run t := by
  induction entries generalizing t decl E entries' with
  | zero => exact absurd hleft (Nat.not_lt_zero _)
  | succ entries ih =>
      cases entries' with
      | zero => exact absurd hleft' (Nat.not_lt_zero _)
      | succ entries' =>
          rw [enterWithin, enterWithin, run_enter, run_enter]
          cases hwritten : (decls.get? decl).bind (·.type) with
          | none => rfl
          | some written =>
              dsimp only
              split
              · rfl
              · next hnew =>
                  rw [ht] at hnew ⊢
                  -- inside of it both limits are still larger than what is left
                  have hless := unexpanded_cons_lt hwritten hnew
                  have hbuild :
                      Construction decls fun follow => writtenTypeWith follow decls written :=
                    .writtenTypeWith written
                  have hinner :
                      (writtenTypeWith (enterWithin beyond decls entries) decls written).run
                          { t with expanding := decl :: E } =
                        (writtenTypeWith (enterWithin beyond' decls entries') decls written).run
                          { t with expanding := decl :: E } :=
                    hbuild.congr (E := decl :: E)
                      (fun d t' ht' => enterWithin_expanding (by omega) ht')
                      (fun d t' ht' => ih (by omega) (by omega) ht') rfl
                  rw [hinner]

end

/-- With more entries than there are declarations, typedefs are followed as far as they lead. -/
lemma enterWithin_eq_expand (beyond : NodeId → TypeM QualType) {entries : Nat}
    (h : decls.size < entries) (decl : NodeId) :
    enterWithin beyond decls entries decl = expand decls decl := by
  rw [expand, expandWithin_eq_enterWithin]
  funext t
  have hle := unexpanded_le decls t.expanding
  exact enterWithin_congr (by omega) (by omega) rfl

/-- **The building of types ends**, on whatever table. A limit on the typedefs that are entered
inside of each other is never met when it is larger than the number of declarations: nothing depends
on it, nor on what would be done there, and typedefs are followed by the bare recursion. Every step
leaves the typedefs that are being expanded as it found them, also where there is no type to follow
or a circle was cut. -/
theorem build_ends (decls : DeclTable) (request : Request) :
    (∀ beyond more,
        request.buildWith (enterWithin beyond decls (decls.size + 1 + more)) decls =
          request.build decls) ∧
      (∀ decl, expand decls decl = enter (expand decls) decls decl) ∧
      (∀ t, ((request.build decls).run t).2.expanding = t.expanding) ∧
      (∀ t decl, ((expand decls decl).run t).2.expanding = t.expanding) := by
  have hexpanding (t : TypeTable) (decl : NodeId) :
      ((expand decls decl).run t).2.expanding = t.expanding := by
    have hle := unexpanded_le decls t.expanding
    rw [expand, expandWithin_eq_enterWithin]
    exact enterWithin_expanding (by omega) rfl
  refine ⟨?_, ?_, ?_, hexpanding⟩
  · intro beyond more
    have hentries : decls.size < decls.size + 1 + more := by omega
    have hsame : enterWithin beyond decls (decls.size + 1 + more) = expand decls :=
      funext (enterWithin_eq_expand beyond hentries)
    rw [request.build_eq, hsame]
  · intro decl
    have hmore : decls.size < decls.size + 1 + 1 := by omega
    let stop : NodeId → TypeM QualType := fun _ => unresolved ""
    -- one entry more makes no difference, and the first of these is the bare step
    have hsame : enterWithin stop decls (decls.size + 1) = expand decls :=
      funext (enterWithin_eq_expand stop (Nat.lt_succ_self _))
    rw [← enterWithin_eq_expand stop hmore decl, enterWithin, hsame]
  · intro t
    rw [request.build_eq]
    refine (request.construction decls).expanding (fun d t' ht' => ?_) rfl
    rw [hexpanding, ht']

end UnitIndex.TypeTable
