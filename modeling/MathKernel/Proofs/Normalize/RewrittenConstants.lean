import MathKernel.Normalize.CastCalls
import MathKernel.Normalize.StaticStorage
import MathKernel.Proofs.Normalize.LiteralValues
import MathKernel.Proofs.Normalize.ScopedRenaming
import MathKernel.Proofs.Semantics.Constants
import MathKernel.Proofs.Syntax.Walks

/-!
# Rewritten constants

Three passes rewrite the initializers of variables without giving them other values: literals are
put into their canonical form, static variables are renamed, and casts become calls of the
conversions.

## Main definitions

* `Expr.KeepsConstants` — a rewriting of nodes that keeps their values
* `Decl.KeepsValue` — a declaration that is rewritten and renamed and keeps its value

## Main results

* `Expr.KeepsConstants.bottomUpM` — rewritten constant expressions
* `Decl.keepsValue_respell`, `Decl.InitializedAlike.keepsValue_renameIds`,
  `Decl.keepsValue_castCalls` — declarations under the three passes
-/

namespace MathKernel

/-! ### Rewritten constant expressions -/

theorem Counted.value_replace {α : Type} (f : α → Option α) (a : α) :
    (Counted.replace f a).value = (f a).getD a := by
  unfold Counted.replace
  cases f a <;> rfl

namespace Expr

/-- The second expression has the value, and it is a literal where the first one is. -/
structure KeepsConstant (values : ConstantValues) (v : Scalar) (e e' : Expr) : Prop where
  value : e'.constant? values = some v
  literal : e'.intLiteral? = e.intLiteral?

/-- Rewriting does not change the values of constants, which may get other names. -/
structure KeepsConstants (values values' : ConstantValues) (rewrite : Expr → Option Expr) :
    Prop where
  renamed : ∀ name c, ∃ name' c', (rewrite (.id name c)).getD (.id name c) = .id name' c' ∧
    ∀ value, values name = some value → values' name' = some value
  node : ∀ e v, e.idName? = none → e.constant? values' = some v →
    KeepsConstant values' v e ((rewrite e).getD e)

theorem value_bottomUpM (rewrite : Expr → Option Expr) (e : Expr) :
    (e.bottomUpM (Counted.replace rewrite)).value =
      (rewrite (e.withParts (e.parts.map fun part =>
        (part.bottomUpM (Counted.replace rewrite)).value))).getD
        (e.withParts (e.parts.map fun part =>
          (part.bottomUpM (Counted.replace rewrite)).value)) := by
  rw [bottomUpM_eq, Counted.value_bind, Counted.value_mapM, Counted.value_replace]

variable {values values' : ConstantValues} {rewrite : Expr → Option Expr}

/-- A constant expression keeps its value if each node does. -/
theorem KeepsConstants.bottomUpM (h : KeepsConstants values values' rewrite) {e : Expr}
    {v : Scalar} (hv : e.constant? values = some v) :
    KeepsConstant values' v e (e.bottomUpM (Counted.replace rewrite)).value := by
  -- The node is a literal before its parts are rewritten if it is one afterwards.
  have hnode {e e' : Expr} {v : Scalar} (hid : e'.idName? = none)
      (hliteral : e'.intLiteral? = e.intLiteral?) (hv : e'.constant? values' = some v) :
      KeepsConstant values' v e ((rewrite e').getD e') :=
    ⟨(h.node e' v hid hv).value, (h.node e' v hid hv).literal.trans hliteral⟩
  fun_induction constant? values e generalizing v with
  | case1 value c =>
    rw [value_bottomUpM]
    exact h.node _ _ rfl hv
  | case2 name c =>
    obtain ⟨w, hw, hv⟩ := Option.bind_eq_some_iff.1 hv
    obtain ⟨name', c', hid, hkept⟩ := h.renamed name c
    rw [value_bottomUpM]
    change KeepsConstant values' v _ ((rewrite (.id name c)).getD (.id name c))
    rw [hid]
    refine ⟨?_, rfl⟩
    rw [constant?, hkept w hw]
    exact hv
  | case3 name c subscript c₂ ih =>
    obtain ⟨w, hw, hv⟩ := Option.bind_eq_some_iff.1 hv
    obtain ⟨i, hi, hv⟩ := Option.bind_eq_some_iff.1 hv
    obtain ⟨name', c', hid, hkept⟩ := h.renamed name c
    rw [value_bottomUpM]
    refine hnode rfl rfl ?_
    change ((index (((id name c).bottomUpM (Counted.replace rewrite)).value)
      ((subscript.bottomUpM (Counted.replace rewrite)).value) c₂).constant? values') = some v
    rw [value_bottomUpM rewrite (.id name c)]
    change ((index ((rewrite (.id name c)).getD (.id name c))
      ((subscript.bottomUpM (Counted.replace rewrite)).value) c₂).constant? values') = some v
    rw [hid, constant?, hkept w hw, (ih hi).value]
    exact hv
  | case4 op e c ih =>
    obtain ⟨w, hw, hv⟩ := Option.bind_eq_some_iff.1 hv
    rw [value_bottomUpM]
    refine hnode rfl rfl ?_
    change ((unary op (e.bottomUpM (Counted.replace rewrite)).value c).constant? values') = some v
    rw [constant?, (ih hw).value]
    exact hv
  | case5 op l r c ihl ihr =>
    obtain ⟨w, hw, hv⟩ := Option.bind_eq_some_iff.1 hv
    obtain ⟨w', hw', hv⟩ := Option.bind_eq_some_iff.1 hv
    rw [value_bottomUpM]
    refine hnode rfl rfl ?_
    change ((binary op (l.bottomUpM (Counted.replace rewrite)).value
      (r.bottomUpM (Counted.replace rewrite)).value c).constant? values') = some v
    rw [constant?, (ihl hw).value, (ihr hw').value]
    exact hv
  | case6 type e c ih =>
    obtain ⟨w, hw, hv⟩ := Option.bind_eq_some_iff.1 hv
    rw [value_bottomUpM]
    refine hnode rfl rfl ?_
    change ((cast type (e.bottomUpM (Counted.replace rewrite)).value c).constant? values') = some v
    rw [constant?, (ih hw).value]
    exact hv
  | case7 callee e c ih =>
    obtain ⟨type, htype, hv⟩ := Option.bind_eq_some_iff.1 hv
    obtain ⟨w, hw, hv⟩ := Option.bind_eq_some_iff.1 hv
    rw [value_bottomUpM]
    refine hnode rfl rfl ?_
    change ((call callee [(e.bottomUpM (Counted.replace rewrite)).value] c).constant? values') =
      some v
    rw [constant?, htype, Option.bind_some, (ih hw).value]
    exact hv
  | case8 => cases hv

/-- Nothing is rewritten. -/
theorem keepsConstants_none (h : ∀ name value, values name = some value →
    values' name = some value) : KeepsConstants values values' fun _ => none where
  renamed name c := ⟨name, c, rfl, h name⟩
  node _ _ _ hv := ⟨hv, rfl⟩

/-- Literals in their canonical form. -/
theorem keepsConstants_respelled? (h : ∀ name value, values name = some value →
    values' name = some value) : KeepsConstants values values' respelled? where
  renamed name c := ⟨name, c, rfl, h name⟩
  node e v hid hv := by
    cases hrewrite : respelled? e with
    | none => exact ⟨hv, rfl⟩
    | some e' =>
      unfold respelled? at hrewrite
      split at hrewrite
      · next value c =>
        split at hrewrite
        · next normal hnormal =>
          split at hrewrite
          · cases hrewrite
          · cases hrewrite
            exact ⟨Literal.scalar?_canonical? hnormal hv, Literal.intValue?_canonical? hnormal⟩
        · cases hrewrite
      · cases hrewrite

/-- Casts that become calls. -/
theorem keepsConstants_castCall? (h : ∀ name value, values name = some value →
    values' name = some value) : KeepsConstants values values' castCall? where
  renamed name c := ⟨name, c, rfl, h name⟩
  node e v hid hv := by
    unfold castCall?
    split
    · next operand _ =>
      obtain ⟨w, -, hv⟩ := Option.bind_eq_some_iff.1 hv
      cases hv
    · next type operand c _ =>
      refine ⟨?_, rfl⟩
      rw [Option.getD_some, constant?, ScalarType.ofCName?_cName]
      exact hv
    · exact ⟨hv, rfl⟩

/-- Names that are changed. -/
theorem keepsConstants_lookup? {renames : Renames}
    (h : ∀ name value, values name = some value → values' (renames.image name) = some value) :
    KeepsConstants values values' (renames.lookup? []) where
  renamed name c := by
    refine ⟨renames.image name, c, ?_, h name⟩
    have hrewrite : renames.lookup? [] (.id name c) =
        (renames.lookup name).map fun new => .id new c := by simp [Renames.lookup?]
    rw [hrewrite, Renames.image]
    cases renames.lookup name <;> rfl
  node e v hid hv := by
    cases e with
    | id => cases hid
    | _ => exact ⟨hv, rfl⟩

end Expr

/-! ### Rewritten declarations -/

namespace Expr

/-- Braces stay where nothing is written for them. -/
theorem value_bottomUpM_initList {rewrite : Expr → Option Expr}
    (h : ∀ items c, rewrite (.initList items c) = none) (items : List Expr) (c : Coord) :
    ((initList items c).bottomUpM (Counted.replace rewrite)).value =
      initList (items.map fun e => (e.bottomUpM (Counted.replace rewrite)).value) c := by
  rw [value_bottomUpM]
  change (rewrite (initList _ c)).getD (initList _ c) = _
  rw [h]
  rfl

end Expr

/-- Each result stays the same where the elements are rewritten. -/
theorem mapM_map_eq_some {α β : Type} {f g : α → Option β} {h : α → α} {items : List α}
    {results : List β} (hfg : ∀ a b, f a = some b → g (h a) = some b)
    (hitems : items.mapM f = some results) : (items.map h).mapM g = some results := by
  induction items generalizing results with
  | nil => exact hitems
  | cons a rest ih =>
    rw [List.mapM_cons] at hitems
    obtain ⟨b, hb, hitems⟩ := Option.bind_eq_some_iff.1 hitems
    obtain ⟨bs, hbs, hitems⟩ := Option.bind_eq_some_iff.1 hitems
    rw [List.map_cons, List.mapM_cons, hfg a b hb, ih hbs]
    exact hitems

namespace Declarator

theorem sizes?_mapElement {δ : Type} (f : ElementType → ElementType) (t : Declarator δ) :
    (t.mapElement f).sizes? = t.sizes? := by
  induction t with
  | element | function => rfl
  | array item size c ih => rw [mapElement, sizes?, ih, sizes?]

theorem respell_eq : ∀ t : Declarator Decl,
    t.respell.value.sizes? = t.sizes? ∧
      t.respell.value.elementType.scalar = t.elementType.scalar
  | element t => by
    rw [respell, Counted.value_bind]
    unfold ElementType.respell
    split <;> exact ⟨rfl, rfl⟩
  | function params result c => by
    rw [respell, Counted.value_bind, Counted.value_bind]
    exact ⟨rfl, (respell_eq result).2⟩
  | array item size c => by
    obtain ⟨hsizes, hscalar⟩ := respell_eq item
    rw [respell, Counted.value_bind]
    exact ⟨congrArg (Option.map _) hsizes, hscalar⟩

theorem sizes?_mapSizeM (f : Expr → Counted Expr) (t : Declarator Decl) :
    (t.mapSizeM f).value.sizes? = t.sizes?.map fun
      | [] => []
      | size :: rest => (size.map fun e => (f e).value) :: rest := by
  cases t with
  | element | function => rfl
  | array item size c => 
    cases hitem : item.sizes? <;> cases size <;> simp [mapSizeM, sizes?, hitem, mapOptionM]

end Declarator

namespace Decl

variable {values values' : ConstantValues} {d d' : Decl} {value : Value Scalar}

/-- The declarations have the same initializers, and what these are for is the same. -/
structure InitializedAlike (d d' : Decl) : Prop where
  isExternal : d'.isExternal = d.isExternal
  scalar : d'.scalar = d.scalar
  sizes : d'.type.sizes? = d.type.sizes?
  arrayLen? : d'.arrayLen? = d.arrayLen?
  init : d'.init = d.init

theorem InitializedAlike.refl (d : Decl) : d.InitializedAlike d :=
  ⟨rfl, rfl, rfl, rfl, rfl⟩

theorem initializedAlike_respellType (d : Decl) : d.InitializedAlike d.respellType.value := by
  obtain ⟨name, quals, storage, type, init, c⟩ := d
  obtain ⟨hsizes, hscalar⟩ := type.respell_eq
  rw [respellType]
  refine ⟨rfl, hscalar, hsizes, ?_, rfl⟩
  cases type <;> rw [Declarator.respell] <;> rfl

theorem initializedAlike_promote (d : Decl) (new : String) :
    d.InitializedAlike (d.promote new) where
  isExternal := by
    simp [isExternal, promote, dropStatic, rename]
  scalar := d.scalar_rename new
  sizes := Declarator.sizes?_mapElement _ _
  arrayLen? := by
    obtain ⟨name, quals, storage, type, init, c⟩ := d
    cases type <;> rfl
  init := rfl

theorem InitializedAlike.assigned? (h : d.InitializedAlike d') (values : ConstantValues) :
    d'.assigned? values = d.assigned? values := by
  rw [Decl.assigned?, Decl.assigned?, h.sizes, h.scalar, h.init]

theorem init_mapExprsM (f : Expr → Counted Expr) (d : Decl) :
    (d.mapExprsM f).value.init = d.init.map fun e => (f e).value := by
  change (mapOptionM f d.init).value = _
  cases d.init <;> rfl

section Walks

variable {f : Expr → Counted Expr}
  (hconstant : ∀ e v, e.constant? values = some v → Expr.KeepsConstant values' v e (f e).value)
  (hbraces : ∀ items c, (f (.initList items c)).value =
    .initList (items.map fun e => (f e).value) c)
include hconstant hbraces

/-- An initialized variable keeps its value if each expression does and braces stay. -/
theorem assigned?_mapExprsM (h : d.assigned? values = some value) :
    (d.mapExprsM f).value.assigned? values' = some value := by
  have hassigned {type : ScalarType} (e : Expr) (v : Scalar)
      (hv : e.assignedAs? values type = some v) :
      (f e).value.assignedAs? values' type = some v := by
    obtain ⟨w, hw, rfl⟩ := Option.map_eq_some_iff.1 hv
    rw [Expr.assignedAs?, (hconstant e w hw).value]
    rfl
  -- The length of an array is a constant expression as well.
  have hlength {count n : Nat} {size : Option Expr}
      (hn : Expr.arrayLength? values count size = some n) :
      Expr.arrayLength? values' count (size.map fun e => (f e).value) = some n := by
    cases size with
    | none => exact hn
    | some e =>
      simp only [Expr.arrayLength?] at hn
      split at hn
      · next k hk =>
        simp only [Expr.arrayLength?, Option.map_some, (hconstant e _ hk).value]
        exact hn
      · cases hn
  have hscalar := d.scalar_mapExprsM f
  have hsizes := Declarator.sizes?_mapSizeM f d.type
  unfold assigned? at h
  split at h
  · cases h
  · next hvoid =>
    have hmatch : (d.mapExprsM f).value.type.sizes? = _ := Declarator.sizes?_mapSizeM f d.type
    rw [assigned?, hscalar, if_neg hvoid, init_mapExprsM, hmatch]
    unfold Expr.assignedFor? at h
    split at h
    · next e htype he =>
      obtain ⟨v, hv, rfl⟩ := Option.map_eq_some_iff.1 h
      rw [htype, he]
      exact congrArg (Option.map Value.scalar) (hassigned e v hv)
    · next size items c htype he =>
      obtain ⟨v, hv, rfl⟩ := Option.map_eq_some_iff.1 h
      obtain ⟨length, hn, hv⟩ := Option.bind_eq_some_iff.1 hv
      obtain ⟨given, hgiven, hv⟩ := Option.bind_eq_some_iff.1 hv
      rw [htype, he, Option.map_some, Option.map_some, hbraces]
      refine Option.map_eq_some_iff.2 ⟨v, ?_, rfl⟩
      rw [Expr.assignedItems?, List.length_map, hlength hn, mapM_map_eq_some hassigned hgiven]
      exact hv
    · cases h

/-- As many items of such an array are recorded. -/
theorem arrayLen?_mapExprsM (h : d.assigned? values = some value) :
    (d.mapExprsM f).value.arrayLen? = d.arrayLen? := by
  have hmap : (d.mapExprsM f).value.type = (d.type.mapSizeM f).value := rfl
  have hinit := d.init_mapExprsM f
  unfold assigned? at h
  split at h
  · cases h
  unfold Expr.assignedFor? at h
  split at h
  · next e hsizes he =>
    obtain ⟨type, htype⟩ := Declarator.sizes?_eq_nil hsizes
    rw [arrayLen?, arrayLen?, hmap, htype]
    rfl
  · next size items c hsizes he =>
    obtain ⟨type, c', htype⟩ := Declarator.sizes?_eq_singleton hsizes
    obtain ⟨v, hv, rfl⟩ := Option.map_eq_some_iff.1 h
    obtain ⟨length, hn, hv⟩ := Option.bind_eq_some_iff.1 hv
    have hcount : (d.mapExprsM f).value.initLen? = d.initLen? := by
      rw [initLen?, initLen?, hinit, he, Option.map_some, hbraces]
      exact congrArg some (List.length_map _)
    cases size with
    | none =>
      rw [arrayLen?, arrayLen?, hmap, htype, hcount]
      rfl
    | some e =>
      have hliteral : (f e).value.intLiteral? = e.intLiteral? := by
        simp only [Expr.arrayLength?] at hn
        split at hn
        · next k hk => exact (hconstant e _ hk).literal
        · cases hn
      have hsize : (d.mapExprsM f).value.type = .array (.element type) (some (f e).value) c' := by
        rw [hmap, htype]
        rfl
      simp only [arrayLen?, hsize, htype, hcount, Option.bind_some, hliteral]
  · cases h

end Walks

/-- The second declaration is the first one under a new name. It gets the same value where the
constants do under their new names, and as many items of an array are recorded. -/
structure KeepsValue (rename : String → String) (d d' : Decl) : Prop where
  name : d'.name = d.name.map rename
  isExternal : d'.isExternal = d.isExternal
  scalar : d'.scalar = d.scalar
  assigned : ∀ {values values' : ConstantValues} {value},
    (∀ x w, values x = some w → values' (rename x) = some w) → d.assigned? values = some value →
      d'.assigned? values' = some value ∧ d'.arrayLen? = d.arrayLen?

theorem KeepsValue.trans {rename rename' : String → String} {d'' : Decl}
    (h : d.KeepsValue rename d') (h' : d'.KeepsValue rename' d'') :
    d.KeepsValue (rename' ∘ rename) d'' where
  name := by rw [h'.name, h.name, Option.map_map]
  isExternal := h'.isExternal.trans h.isExternal
  scalar := h'.scalar.trans h.scalar
  assigned {values values' value} hvalues hvalue := by
    obtain ⟨hbetween, hlength⟩ : d'.assigned? (values' ∘ rename') = some value ∧
        d'.arrayLen? = d.arrayLen? := h.assigned hvalues hvalue
    obtain ⟨hlast, hlength'⟩ := h'.assigned (fun _ _ hw => hw) hbetween
    exact ⟨hlast, hlength'.trans hlength⟩

theorem KeepsValue.id_trans {rename : String → String} {d'' : Decl} (h : d.KeepsValue id d')
    (h' : d'.KeepsValue rename d'') : d.KeepsValue rename d'' :=
  h.trans h'

theorem KeepsValue.trans_id {rename : String → String} {d'' : Decl} (h : d.KeepsValue rename d')
    (h' : d'.KeepsValue id d'') : d.KeepsValue rename d'' :=
  h.trans h'

/-- Expressions that are rewritten. -/
theorem InitializedAlike.keepsValue {rename : String → String} {rewrite : Expr → Option Expr}
    (h : d.InitializedAlike d') (hname : d'.name = d.name.map rename)
    (hrewrite : ∀ {values values' : ConstantValues},
      (∀ x w, values x = some w → values' (rename x) = some w) →
        Expr.KeepsConstants values values' rewrite)
    (hbraces : ∀ items c, rewrite (.initList items c) = none) :
    d.KeepsValue rename (d'.mapExprsM (Expr.bottomUpM (Counted.replace rewrite))).value where
  name := hname
  isExternal := h.isExternal
  scalar := (d'.scalar_mapExprsM _).trans h.scalar
  assigned {values values' value} hvalues hvalue := by
    have hconstant (e : Expr) (v : Scalar) (hv : e.constant? values = some v) :=
      (hrewrite hvalues).bottomUpM hv
    have hbraces := Expr.value_bottomUpM_initList hbraces
    have hvalue := (h.assigned? values).trans hvalue
    exact ⟨assigned?_mapExprsM hconstant hbraces hvalue,
      (arrayLen?_mapExprsM hconstant hbraces hvalue).trans h.arrayLen?⟩

theorem keepsValue_self (d : Decl) : d.KeepsValue id d := by
  have h := (InitializedAlike.refl d).keepsValue Option.map_id_apply.symm
    Expr.keepsConstants_none fun _ _ => rfl
  have hself : d.mapExprsM (Expr.bottomUpM (Counted.replace fun _ => none)) = pure d :=
    mapExprsM_eq_pure fun e _ => Expr.bottomUpM_eq_pure fun _ _ => rfl
  rwa [hself] at h

theorem keepsValue_respell (d : Decl) : d.KeepsValue id d.respell.value := by
  have hname : d.respellType.value.name = d.name := by
    cases d
    rw [respellType]
    rfl
  rw [respell, Counted.value_bind]
  exact (initializedAlike_respellType d).keepsValue (hname.trans Option.map_id_apply.symm)
    Expr.keepsConstants_respelled? fun _ _ => rfl

theorem InitializedAlike.keepsValue_renameIds {renames : Renames} (h : d.InitializedAlike d')
    (hname : d'.name = d.name.map renames.image) :
    d.KeepsValue renames.image (d'.renameIds renames).value :=
  h.keepsValue hname Expr.keepsConstants_lookup? fun _ _ => rfl

theorem keepsValue_castCalls (d : Decl) :
    d.KeepsValue id (d.mapExprsM (Expr.bottomUpM (Counted.replace Expr.castCall?))).value :=
  (InitializedAlike.refl d).keepsValue Option.map_id_apply.symm Expr.keepsConstants_castCall?
    fun _ _ => rfl

end Decl

end MathKernel
