import MathKernel.Proofs.Normalize.HoistedStatics
import MathKernel.Proofs.Normalize.ScopedRenaming
import MathKernel.Proofs.Syntax.Writes

/-!
# Writes after renaming and without static variables

Renaming in a body and taking static variables out of it are described by what they do to the list
of its writes: the one spells names anew where nothing hides them, the other drops declarations
around a write.

## Main definitions

* `Write.spelling` — how the name of a written variable is spelled after renaming
* `Write.Takes` — writes before and after static variables are taken out

## Main results

* `Expr.writtenNames_renameIds`, `Stmt.writes_mapScopedM` — writes after renaming
* `Stmt.takes_writes` — writes after static variables are taken out
-/

namespace MathKernel

/-! ### Renaming in expressions -/

namespace Expr

section Renaming

variable {R : Renames} {hidden : List String}

theorem lvalueRoot?_renameIds (e : Expr) :
    (e.renameIds R hidden).value.lvalueRoot? =
      e.lvalueRoot?.map fun x => if x ∈ hidden then x else R.image x := by
  cases e with
  | id x c =>
    rw [value_renameIds_id]
    rfl
  | index a i c =>
    rw [value_renameIds_of_parts rfl]
    exact lvalueRoot?_renameIds a
  | _ =>
    rw [value_renameIds_of_parts rfl]
    rfl

theorem written?_renameIds (e : Expr) :
    (e.renameIds R hidden).value.written? =
      e.written?.map fun x => if x ∈ hidden then x else R.image x := by
  cases e with
  | id x c =>
    rw [value_renameIds_id]
    rfl
  | assign op t v c =>
    rw [value_renameIds_of_parts rfl]
    exact lvalueRoot?_renameIds t
  | unary op t c =>
    rw [value_renameIds_of_parts rfl]
    by_cases hop : op.isMutating
    · simpa [written?, writeTarget?, withParts, parts, hop] using lvalueRoot?_renameIds t
    · simp [written?, writeTarget?, withParts, parts, hop]
  | _ =>
    rw [value_renameIds_of_parts rfl]
    rfl

/-- Renaming changes the names of written variables as it changes all others. -/
theorem writtenNames_renameIds (e : Expr) :
    (e.renameIds R hidden).value.writtenNames =
      e.writtenNames.map fun x => if x ∈ hidden then x else R.image x := by
  induction e using parts_induction with
  | h e ih =>
    rw [writtenNames_eq, writtenNames_eq e, written?_renameIds, List.map_append,
      List.map_flatMap, Option.toList_map]
    congr 1
    cases hid : e.idName? with
    | some x =>
      obtain ⟨c, rfl⟩ : ∃ c, e = id x c := by
        cases e <;> simp_all [idName?]
      rw [value_renameIds_id]
      rfl
    | none =>
      rw [value_renameIds_of_parts hid, parts_withParts (List.length_map _), List.flatMap_map]
      exact List.flatMap_congr ih

end Renaming

end Expr

/-! ### Renaming in statements -/

section Renaming

variable {R : Renames} {hidden : List String}

namespace Write

/-- How the name is spelled after renaming where some names are hidden from outside. -/
def spelling (R : Renames) (hidden : List String) (w : Write) : String :=
  if w.2 ∈ w.1.filterMap Decl.name ++ hidden then w.2 else R.image w.2

/-- Only which names are hidden matters, not their order. -/
theorem spelling_congr {hidden' : List String} (h : ∀ x, x ∈ hidden ↔ x ∈ hidden') :
    spelling R hidden = spelling R hidden' := by
  funext w
  simp [spelling, h]

/-- Declarations before the code hide names in it. -/
@[simp] theorem map_spelling_under (ds : List Decl) (found : List Write) :
    (under ds found).map (spelling R hidden) =
      found.map (spelling R (ds.filterMap Decl.name ++ hidden)) := by
  rw [under, List.map_map]
  refine List.map_congr_left fun w _ => ?_
  simp [spelling, or_left_comm]

/-- Renaming in expressions gives the names their new spelling. -/
theorem map_spelling_plain (es : List Expr) :
    (plain es).map (spelling R hidden) =
      (es.map fun e => (e.renameIds R hidden).value).flatMap Expr.writtenNames := by
  rw [plain, List.map_map, List.map_flatMap, List.flatMap_map]
  exact List.flatMap_congr fun e _ => e.writtenNames_renameIds.symm

end Write

namespace Decl

/-- The initializer does not write to the variable that it is for. -/
def InitKeeps (d : Decl) : Prop :=
  ∀ x ∈ d.name.toList, x ∉ d.init.toList.flatMap Expr.writtenNames

instance (d : Decl) : Decidable d.InitKeeps :=
  inferInstanceAs (Decidable (∀ x ∈ d.name.toList, x ∉ d.init.toList.flatMap Expr.writtenNames))

theorem writes_mapExprsM {d : Decl} (hd : d.InitKeeps) :
    (d.mapExprsM (Expr.renameIds R hidden)).value.writes.map Prod.snd =
      d.writes.map (Write.spelling R hidden) := by
  have hinit : (d.mapExprsM (Expr.renameIds R hidden)).value.init.toList =
      d.init.toList.map fun e => (e.renameIds R hidden).value :=
    mapOptionM_toList _ d.init
  -- The declared name hides nothing in the initializer, which does not write to it.
  have hself : (Write.plain d.init.toList).map
        (Write.spelling R ([d].filterMap Decl.name ++ hidden)) =
      (Write.plain d.init.toList).map (Write.spelling R hidden) := by
    refine List.map_congr_left fun w hw => ?_
    obtain ⟨x, hx, rfl⟩ := List.mem_map.1 hw
    have hname : d.name ≠ some x := fun h => hd x (Option.mem_toList.2 h) hx
    have hhidden : x ∈ [d].filterMap Decl.name ++ hidden ↔ x ∈ hidden := by
      simp [List.mem_filterMap, hname]
    exact if_congr hhidden rfl rfl
  simp only [writes_eq, List.map_append, Write.map_snd_plain, Write.map_snd_under,
    Write.map_spelling_under, hself, size?_mapExprsM, hinit, Write.map_spelling_plain]

theorem writesList_mapScopedListM (R : Renames) {ds : List Decl} (hds : ∀ d ∈ ds, d.InitKeeps)
    (hidden : List String) :
    (writesList (mapScopedListM declareName (Expr.renameIds R) hidden ds).value.1).map Prod.snd =
        (writesList ds).map (Write.spelling R hidden) ∧
      ∀ x, x ∈ (mapScopedListM declareName (Expr.renameIds R) hidden ds).value.2 ↔
        x ∈ ds.filterMap Decl.name ++ hidden := by
  induction ds generalizing hidden with
  | nil => exact ⟨rfl, fun x => Iff.rfl⟩
  | cons d rest ih =>
    obtain ⟨hd, hrest⟩ := List.forall_mem_cons.1 hds
    obtain ⟨hwrites, hhidden⟩ := ih hrest (declareName d hidden)
    have hname (x : String) : x ∈ declareName d hidden ↔ x ∈ [d].filterMap Decl.name ++ hidden := by
      rw [declareName_eq]
      simp [List.mem_filterMap]
    refine ⟨?_, fun x => (hhidden x).trans ?_⟩
    · simp only [mapScopedListM, Counted.value_bind, Counted.value_pure, writesList_cons,
        List.map_append, writes_mapExprsM hd, Write.map_snd_under, hwrites,
        Write.map_spelling_under, Write.spelling_congr hname]
    · rw [List.mem_append, hname x, List.mem_append, or_left_comm, ← or_assoc,
        ← List.mem_append, ← List.filterMap_append, List.singleton_append, ← List.mem_append]

end Decl

namespace Stmt

mutual

/-- The names of written variables after renaming in a statement. -/
theorem writes_mapScopedM (s : Stmt) (hidden : List String) (hs : s.declsInBlocks)
    (hdecls : ∀ d ∈ s.decls, d.InitKeeps) :
    (mapScopedM declareName (Expr.renameIds R) hidden s).value.1.writes.map Prod.snd =
      s.writes.map (Write.spelling R hidden) := by
  cases s with
  | decl d c => exact Decl.writes_mapExprsM (hdecls d List.mem_cons_self)
  | block items b c => exact writesList_mapScopedListM items hidden hs hdecls
  | expr e c =>
    simp only [mapScopedM, Counted.value_bind, Counted.value_pure, writes_expr,
      Write.map_snd_plain, Write.map_spelling_plain, List.map_cons, List.map_nil]
  | ifThen p t c =>
    simp only [declsInBlocks, Bool.and_eq_true] at hs
    have ht := writes_mapScopedM t hidden hs.2 hdecls
    simp only [mapScopedM, Counted.value_bind, Counted.value_pure, writes_ifThen, List.map_append,
      Write.map_snd_plain, Write.map_spelling_plain, ht, List.map_cons, List.map_nil]
  | ifElse p t e c =>
    simp only [declsInBlocks, Bool.and_eq_true, Bool.not_eq_true'] at hs
    obtain ⟨⟨⟨ht, -⟩, hdt⟩, hde⟩ := hs
    -- The walk goes on with what the first branch hides, which is nothing.
    have hbetween : (mapScopedM declareName (Expr.renameIds R) hidden t).value.2 = hidden := by
      simp [mapScopedM_snd _ t hidden hdt, binds_of_not_isDecl ht]
    simp only [decls, substmts, List.flatMap_cons, ownDecls, List.nil_append, List.flatMap_append,
      List.forall_mem_append] at hdecls
    have htrue := writes_mapScopedM t hidden hdt hdecls.1
    have hfalse := writes_mapScopedM e hidden hde hdecls.2
    simp only [mapScopedM, Counted.value_bind, Counted.value_pure, hbetween, writes_ifElse,
      List.map_append, Write.map_snd_plain, Write.map_spelling_plain, htrue, hfalse, List.map_cons,
      List.map_nil]
  | forLoop init cond next body c =>
    simp only [declsInBlocks, Bool.and_eq_true] at hs
    simp only [decls, substmts, List.flatMap_cons, List.forall_mem_append] at hdecls
    -- The clauses and the body see the scope that the initializer clause leaves.
    have hrest (hidden : List String) :
        ((mapOptionM (Expr.renameIds R hidden) cond).value.toList ++
            (mapOptionM (Expr.renameIds R hidden) next).value.toList).flatMap Expr.writtenNames ++
          (mapScopedM declareName (Expr.renameIds R) hidden body).value.1.writes.map Prod.snd =
        (Write.plain (cond.toList ++ next.toList)).map (Write.spelling R hidden) ++
          body.writes.map (Write.spelling R hidden) := by
      rw [mapOptionM_toList, mapOptionM_toList, ← List.map_append, Write.map_spelling_plain,
        writes_mapScopedM body hidden hs.2 hdecls.2]
    rcases init with _ | ds | e
    · simp only [mapScopedM, Counted.value_bind, Counted.value_pure, writes_forLoop_none,
        List.map_append, Write.map_snd_plain, hrest]
    · have hds (d : Decl) (hd : d ∈ ds) : d.InitKeeps :=
        hdecls.1 d (by simpa [ownDecls, ForInit.declList] using hd)
      obtain ⟨hwrites, hhidden⟩ := Decl.writesList_mapScopedListM R hds hidden
      simp only [mapScopedM, Counted.value_bind, Counted.value_pure, writes_forLoop_decls,
        List.map_append, Write.map_snd_plain, Write.map_snd_under, hwrites, hrest,
        Write.map_spelling_under, Write.spelling_congr hhidden]
    · simp only [mapScopedM, Counted.value_bind, Counted.value_pure, writes_forLoop_expr,
        List.map_append, Write.map_snd_plain, List.append_assoc, hrest]
      rw [Write.map_spelling_plain [e], List.map_cons, List.map_nil]
  | whileLoop p body c | doWhile p body c =>
    simp only [declsInBlocks, Bool.and_eq_true] at hs
    have hbody := writes_mapScopedM body hidden hs.2 hdecls
    simp only [mapScopedM, Counted.value_bind, Counted.value_pure, writes_whileLoop,
      writes_doWhile, List.map_append, Write.map_snd_plain, Write.map_spelling_plain, hbody,
      List.map_cons, List.map_nil]
  | ret value c =>
    simp only [mapScopedM, Counted.value_bind, Counted.value_pure, writes_ret, Write.map_snd_plain,
      Write.map_spelling_plain, mapOptionM_toList]
  | label n s c => exact writes_mapScopedM s hidden hs hdecls
  | brk | cont | goto | empty => rfl

theorem writesList_mapScopedListM (items : List Stmt) (hidden : List String)
    (hs : declsInBlocksList items) (hdecls : ∀ d ∈ declsList items, d.InitKeeps) :
    (writesList (mapScopedListM declareName (Expr.renameIds R) hidden items).value.1).map Prod.snd =
      (writesList items).map (Write.spelling R hidden) := by
  cases items with
  | nil => rfl
  | cons s rest =>
    simp only [declsInBlocksList, Bool.and_eq_true] at hs
    simp only [declsList, substmtsList, List.flatMap_append, List.forall_mem_append] at hdecls
    have hhere := writes_mapScopedM s hidden hs.1 hdecls.1
    have hthere := writesList_mapScopedListM rest (s.binds ++ hidden) hs.2 hdecls.2
    have hbinds : s.declared?.toList.filterMap Decl.name = s.binds := by
      rw [binds_eq]
      cases s.declared? with
      | none => rfl
      | some d =>
        rw [Option.toList_some, List.filterMap_cons, Option.bind_some]
        cases d.name <;> rfl
    simp only [mapScopedListM, Counted.value_bind, Counted.value_pure, mapScopedM_snd _ s _ hs.1,
      writesList_cons, List.map_append, hhere, Write.map_snd_under, hthere,
      Write.map_spelling_under, hbinds]

end

end Stmt

end Renaming

/-! ### Taking static variables out -/

namespace Write

/-- The write without the static variables around it. -/
def dropStatics (w : Write) : Write :=
  (w.1.filter fun d => !d.isStaticVariable, w.2)

theorem map_dropStatics_under (ds : List Decl) (found : List Write) :
    (under ds found).map dropStatics =
      under (ds.filter fun d => !d.isStaticVariable) (found.map dropStatics) := by
  simp [under, dropStatics, Function.comp_def]

/-- The static variables around the writes are among those that are taken out, and without them
the writes are the ones that are left. -/
structure Takes (taken : List Decl) (found left : List Write) : Prop where
  left_eq : left = found.map dropStatics
  statics : ∀ w ∈ found, ∀ d ∈ w.1, d.isStaticVariable = true → d ∈ taken

namespace Takes

variable {ds taken : List Decl} {d : Decl} {found left more more' : List Write}

theorem plain (es : List Expr) : Takes taken (plain es) (plain es) where
  left_eq := by
    rw [Write.plain, List.map_map]
    rfl
  statics w hw d hd := by
    obtain ⟨x, -, rfl⟩ := List.mem_map.1 hw
    cases hd

theorem append (h : Takes taken found left) (hmore : Takes taken more more') :
    Takes taken (found ++ more) (left ++ more') where
  left_eq := by rw [h.left_eq, hmore.left_eq, List.map_append]
  statics w hw := (List.mem_append.1 hw).elim (h.statics w) (hmore.statics w)

theorem mono {taken' : List Decl} (h : Takes taken found left) (hsub : taken ⊆ taken') :
    Takes taken' found left where
  left_eq := h.left_eq
  statics w hw d hd hstatic := hsub (h.statics w hw d hd hstatic)

/-- Other declarations stay around the writes. -/
theorem under (h : Takes taken found left) (hds : ∀ d ∈ ds, d.isStaticVariable = false) :
    Takes taken (under ds found) (under ds left) where
  left_eq := by
    have hkept : ds.filter (fun d => !d.isStaticVariable) = ds := by
      simpa [List.filter_eq_self] using hds
    rw [map_dropStatics_under, hkept, h.left_eq]
  statics w hw d hd hstatic := by
    obtain ⟨v, hv, rfl⟩ := List.mem_map.1 hw
    rcases List.mem_append.1 hd with hd | hd
    · rw [hds d hd] at hstatic
      cases hstatic
    · exact h.statics v hv d hd hstatic

/-- A static variable that is taken out does not. -/
theorem take (h : Takes taken found left) (hstatic : d.isStaticVariable = true) (hd : d ∈ taken) :
    Takes taken (Write.under [d] found) left where
  left_eq := by
    have hnone : [d].filter (fun d => !d.isStaticVariable) = [] := by
      simp [hstatic]
    rw [map_dropStatics_under, hnone, ← h.left_eq]
    simp [Write.under]
  statics w hw d' hd' hstatic' := by
    obtain ⟨v, hv, rfl⟩ := List.mem_map.1 hw
    rcases List.mem_cons.1 hd' with rfl | hd'
    · exact hd
    · exact h.statics v hv d' hd' hstatic'

end Takes

end Write

theorem Decl.takes_writes {d : Decl} {taken : List Decl} (hd : d.isStaticVariable = false) :
    Write.Takes taken d.writes d.writes := by
  rw [writes_eq]
  exact (Write.Takes.plain _).append ((Write.Takes.plain _).under (List.forall_mem_singleton.2 hd))

theorem Decl.takes_writesList {ds taken : List Decl} (hds : ∀ d ∈ ds, d.isStaticVariable = false) :
    Write.Takes taken (writesList ds) (writesList ds) := by
  induction ds with
  | nil => exact .plain []
  | cons d rest ih =>
    obtain ⟨hd, hrest⟩ := List.forall_mem_cons.1 hds
    rw [writesList_cons]
    exact (takes_writes hd).append ((ih hrest).under (List.forall_mem_singleton.2 hd))

namespace Stmt

mutual

/-- Taking the static variables out of a statement, if they write to nothing themselves and all of
them are taken. -/
theorem takes_writes (s : Stmt) (htaken : ∀ d ∈ s.statics, d.writes = [])
    (hleft : ∀ d ∈ s.withoutStatics.decls, d.isStaticVariable = false) :
    Write.Takes s.statics s.writes s.withoutStatics.writes := by
  cases s with
  | decl d c => exact Decl.takes_writes (hleft d List.mem_cons_self)
  | block items b c => exact takes_writesList items htaken hleft
  | ifThen p t c =>
    simp only [withoutStatics, writes_ifThen]
    exact (Write.Takes.plain _).append (takes_writes t htaken hleft)
  | ifElse p t e c =>
    simp only [statics, List.forall_mem_append] at htaken
    simp only [withoutStatics, decls, substmts, List.flatMap_cons, ownDecls, List.nil_append,
      List.flatMap_append, List.forall_mem_append] at hleft
    have ht := (takes_writes t htaken.1 hleft.1).mono (List.subset_append_left _ e.statics)
    have he := (takes_writes e htaken.2 hleft.2).mono (List.subset_append_right t.statics _)
    simp only [withoutStatics, writes_ifElse]
    exact ((Write.Takes.plain _).append ht).append he
  | forLoop init cond next body c =>
    simp only [withoutStatics, decls, substmts, List.flatMap_cons,
      List.forall_mem_append] at hleft
    have hbody := takes_writes body htaken hleft.2
    -- Nothing is taken out of a clause, so no declaration there is static.
    rcases init with _ | ds | e
    · simp only [withoutStatics, writes_forLoop_none]
      exact (Write.Takes.plain _).append hbody
    · have hds (d : Decl) (hd : d ∈ ds) : d.isStaticVariable = false :=
        hleft.1 d (by simpa [ownDecls, ForInit.declList] using hd)
      simp only [withoutStatics, writes_forLoop_decls]
      exact (Decl.takes_writesList hds).append (((Write.Takes.plain _).append hbody).under hds)
    · simp only [withoutStatics, writes_forLoop_expr]
      exact ((Write.Takes.plain _).append (Write.Takes.plain _)).append hbody
  | whileLoop p body c | doWhile p body c =>
    simp only [withoutStatics, writes_whileLoop, writes_doWhile]
    exact (Write.Takes.plain _).append (takes_writes body htaken hleft)
  | label n s c => exact takes_writes s htaken hleft
  | expr e c =>
    rw [withoutStatics, writes_expr]
    exact .plain _
  | ret value c =>
    rw [withoutStatics, writes_ret]
    exact .plain _
  | brk | cont | goto | empty => exact .plain []

theorem takes_writesList (items : List Stmt)
    (htaken : ∀ d ∈ staticsList items ++ items.filterMap staticVariable?, d.writes = [])
    (hleft : ∀ d ∈ declsList (keptItems items), d.isStaticVariable = false) :
    Write.Takes (staticsList items ++ items.filterMap staticVariable?) (writesList items)
      (writesList (keptItems items)) := by
  cases items with
  | nil => exact .plain []
  | cons s rest =>
    cases hvariable : s.staticVariable? with
    | some d =>
      obtain ⟨hstatic, c, rfl⟩ := staticVariable?_eq_some hvariable
      have hkept : keptItems (decl d c :: rest) = keptItems rest := by
        simp [keptItems, hvariable]
      have hall : staticsList (decl d c :: rest) ++ (decl d c :: rest).filterMap staticVariable? =
          staticsList rest ++ d :: rest.filterMap staticVariable? := by
        simp [staticsList, statics, hvariable]
      rw [hkept] at hleft ⊢
      rw [hall] at htaken ⊢
      have hsub : staticsList rest ++ rest.filterMap staticVariable? ⊆
          staticsList rest ++ d :: rest.filterMap staticVariable? :=
        ((List.sublist_cons_self _ _).append_left _).subset
      -- The variable is taken out of the writes that come after its declaration.
      have hrest := takes_writesList rest (fun d' hd' => htaken d' (hsub hd')) hleft
      have hd : d ∈ staticsList rest ++ d :: rest.filterMap staticVariable? := by simp
      rw [writesList_cons, writes_decl, htaken d hd, List.nil_append]
      exact (hrest.mono hsub).take hstatic hd
    | none =>
      have hkept : keptItems (s :: rest) = s.withoutStatics :: keptItems rest := by
        simp [keptItems, hvariable]
      rw [hkept] at hleft ⊢
      simp only [staticsList, List.filterMap_cons, hvariable, List.append_assoc] at htaken ⊢
      simp only [declsList, substmtsList, List.flatMap_append] at hleft
      obtain ⟨hhere, hthere⟩ := List.forall_mem_append.1 htaken
      obtain ⟨hleftHere, hleftThere⟩ := List.forall_mem_append.1 hleft
      have hs := takes_writes s hhere hleftHere
      have hrest := takes_writesList rest hthere hleftThere
      rw [writesList_cons, writesList_cons, declared?_withoutStatics]
      refine (hs.mono (List.subset_append_left _ _)).append
        ((hrest.mono (List.subset_append_right _ _)).under fun d hd => ?_)
      rw [Option.mem_toList, ← declared?_withoutStatics] at hd
      obtain ⟨t, ht, hdt⟩ := exists_ownDecls_of_declared? hd
      exact hleftHere d (List.mem_flatMap.2 ⟨t, ht, hdt⟩)

end

end Stmt

end MathKernel
