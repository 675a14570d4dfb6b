import BytecodeAudit.Params
import BytecodeAudit.Proofs.Ascending
import BytecodeAudit.Proofs.Text.Case

/-!
# Settings rebuilt from their flat forms

Catalogs, parameters and rules are rebuilt one entry at a time. Each has a normal form that its
operations keep and that is given back: descriptors in ascending order of ids (`registerAll_list`),
layers (`ofLayers_layers`) and rules (`ofList_rules`) in theirs.
-/

namespace BytecodeAudit

open List

namespace Catalog

variable {es : List CatalogEntry} {ds : List Descriptor} {e : CatalogEntry} {c c' : Catalog}

/-- A catalog that was filled by registering descriptors; fixers may have been attached to them. -/
inductive IsRegistered : Catalog → Prop
  | empty : IsRegistered Catalog.empty
  | register {c c' : Catalog} {d : Descriptor} (h : IsRegistered c) (hd : c.register d = .ok c') : IsRegistered c'
  | attachFixer {c c' : Catalog} {id : String} {fixer : Option Fixer} (h : IsRegistered c)
      (hid : c.attachFixer id fixer = .ok c') : IsRegistered c'

/-- Descriptors that can be registered in their order: each is valid, and the ids ascend. -/
structure AreOrdered (ds : List Descriptor) : Prop where
  ascending : ds.Pairwise fun a b => a.id < b.id
  validate_eq : ∀ d ∈ ds, d.validate = .ok ()

lemma get?_eq_find? (c : Catalog) (id : String) : c.get? id = c.list.find? (·.id == id) := by
  rw [get?, entry?, list, find?_map]
  rfl

lemma get?_eq_none_iff {id : String} : c.get? id = none ↔ ∀ d ∈ c.list, d.id ≠ id := by
  simp [get?_eq_find?]

lemma register_eq_ok_iff {d : Descriptor} : c.register d = .ok c' ↔
    d.validate = .ok () ∧ (∀ x ∈ c.list, x.id ≠ d.id) ∧ c' = ⟨insertEntry { descriptor := d } c.entries⟩ := by
  rw [← get?_eq_none_iff, register]
  rcases d.validate with f | ⟨⟩
  · simp [bind, Except.bind]
  · cases c.get? d.id <;> simp [bind, Except.bind, eq_comm]

lemma mem_insertEntry {x : CatalogEntry} : x ∈ insertEntry e es ↔ x = e ∨ x ∈ es := by
  induction es with
  | nil => simp [insertEntry]
  | cons y ys ih =>
    rw [insertEntry]
    split
    · exact mem_cons
    · rw [mem_cons, ih, mem_cons]
      exact or_left_comm

lemma insertEntry_eq_put (hnew : ∀ x ∈ es, x.descriptor.id ≠ e.descriptor.id) :
    insertEntry e es = Ascending.put (·.descriptor.id) id e es := by
  induction es with
  | nil => rfl
  | cons y ys ih =>
    obtain ⟨hy, hys⟩ := forall_mem_cons.1 hnew
    rw [insertEntry, Ascending.put, if_neg hy, ih hys]

lemma ascending_insertEntry (h : es.Pairwise fun a b => a.descriptor.id < b.descriptor.id)
    (hnew : ∀ x ∈ es, x.descriptor.id ≠ e.descriptor.id) :
    (insertEntry e es).Pairwise fun a b => a.descriptor.id < b.descriptor.id := by
  rw [insertEntry_eq_put hnew]
  exact Ascending.pairwise_put (fun _ => rfl) h

lemma insertEntry_eq_append (h : ∀ x ∈ es, x.descriptor.id < e.descriptor.id) : insertEntry e es = es ++ [e] := by
  rw [insertEntry_eq_put fun x hx => (h x hx).ne]
  exact Ascending.put_eq_append h

lemma list_attachFixer {id : String} {fixer : Option Fixer} (h : c.attachFixer id fixer = .ok c') :
    c'.list = c.list := by
  rw [attachFixer] at h
  cases hlookup : c.lookup id with
  | error f => rw [hlookup] at h; cases h
  | ok d =>
    rw [hlookup] at h
    cases h
    rw [list, list, map_map]
    refine map_congr_left fun e _ => ?_
    rw [Function.comp_apply]
    split <;> rfl

lemma IsRegistered.areOrdered (h : c.IsRegistered) : AreOrdered c.list := by
  induction h with
  | empty => exact ⟨List.Pairwise.nil, nofun⟩
  | @register c _ d _ hd ih =>
    obtain ⟨hvalid, hnew, rfl⟩ := register_eq_ok_iff.1 hd
    have hascending := ih.ascending
    rw [list, pairwise_map] at hascending
    refine ⟨pairwise_map.2 (ascending_insertEntry hascending fun x hx => ?_), ?_⟩
    · exact hnew x.descriptor (mem_map_of_mem hx)
    · intro x hx
      obtain ⟨e, he, rfl⟩ := mem_map.1 hx
      rcases mem_insertEntry.1 he with rfl | he
      · exact hvalid
      · exact ih.validate_eq e.descriptor (mem_map_of_mem he)
  | attachFixer _ hid ih =>
    rw [list_attachFixer hid]
    exact ih

lemma IsRegistered.registerAll (h : c.IsRegistered) (heq : c.registerAll ds = (c', .ok ())) :
    c'.IsRegistered ∧ ∀ d ∈ c'.list, d ∈ c.list ∨ d ∈ ds := by
  induction ds generalizing c with
  | nil =>
    obtain rfl := (Prod.mk.inj heq).1
    exact ⟨h, fun d hd => .inl hd⟩
  | cons x xs ih =>
    rw [Catalog.registerAll] at heq
    cases hx : c.register x with
    | error f => rw [hx] at heq; cases heq
    | ok c₁ =>
      rw [hx] at heq
      obtain ⟨hregistered, hmem⟩ := ih (h.register hx) heq
      refine ⟨hregistered, fun d hd => (hmem d hd).elim (fun hd => ?_) fun hd => .inr (mem_cons_of_mem x hd)⟩
      obtain ⟨-, -, rfl⟩ := register_eq_ok_iff.1 hx
      obtain ⟨e, he, rfl⟩ := mem_map.1 hd
      rcases mem_insertEntry.1 he with rfl | he
      · exact .inr mem_cons_self
      · exact .inl (mem_map_of_mem he)

lemma registerAll_append (h : AreOrdered (es.map (·.descriptor) ++ ds)) :
    (Catalog.mk es).registerAll ds = (⟨es ++ ds.map fun d => { descriptor := d }⟩, .ok ()) := by
  induction ds generalizing es with
  | nil => simp [registerAll]
  | cons d ds ih =>
    have hbefore : ∀ x ∈ es, x.descriptor.id < d.id := fun x hx =>
      (pairwise_append.1 h.ascending).2.2 _ (mem_map_of_mem hx) d mem_cons_self
    have hregister : (Catalog.mk es).register d = .ok ⟨es ++ [{ descriptor := d }]⟩ := by
      refine register_eq_ok_iff.2 ⟨h.validate_eq d (by simp), fun x hx => ?_, ?_⟩
      · obtain ⟨e, he, rfl⟩ := mem_map.1 hx
        exact ne_of_lt (hbefore e he)
      · rw [insertEntry_eq_append hbefore]
    rw [registerAll, hregister]
    refine (ih ?_).trans (by simp)
    simpa using h

lemma registerAll_list (h : AreOrdered ds) :
    Catalog.empty.registerAll ds = (⟨ds.map fun d => { descriptor := d }⟩, .ok ()) :=
  registerAll_append h

end Catalog

namespace Platform

lemma parse_eq_self {s : String} (hascii : Text.IsAscii s) (h : Text.IsSmall s) (hdefault : s ≠ "default") :
    parse s = ⟨s⟩ := by
  rw [parse, Text.lower_trim_eq_self hascii h]
  exact if_neg (by simpa using hdefault)

lemma parse_default : parse default.name = default := parse_eq_self (by decide) (by decide) (by decide)

lemma isValid_parse (s : String) : Text.IsValid (parse s).name := by
  rw [parse]
  split
  · decide
  · exact ⟨_, rfl⟩

lemma parse_parse {s : String} (h : Text.IsText s) : parse (parse s).name = parse s := by
  by_cases hdefault : Text.lower (Text.trim s) = "default"
  · have hs : parse s = default := if_pos (by simpa using hdefault)
    rw [hs, parse_default]
  · have hs : parse s = ⟨Text.lower (Text.trim s)⟩ := if_neg (by simpa using hdefault)
    rw [hs, parse, Text.lower_trim_lower_trim h]
    exact if_neg (by simpa using hdefault)

end Platform

namespace ParamValues

def IsAscending (vs : ParamValues) : Prop := vs.Pairwise fun a b => Text.rank a.1 < Text.rank b.1

lemma mem_insert {name : String} {value : Int} {vs : ParamValues} {x : String × Int}
    (h : x ∈ insert name value vs) : x = (name, value) ∨ x ∈ vs := by
  rw [insert, Ascending.place_eq_put] at h
  rcases Ascending.mem_of_mem_put h with heq | hx | ⟨y, -, hname, rfl⟩
  · exact .inl heq
  · exact .inr hx
  · exact .inl (Prod.ext (Text.rank_injective hname) rfl)

lemma IsAscending.insert {vs : ParamValues} (h : IsAscending vs) (name : String) (value : Int) :
    IsAscending (insert name value vs) := by
  rw [ParamValues.insert, Ascending.place_eq_put]
  exact Ascending.pairwise_put (fun _ => rfl) h

lemma insert_eq_append {name : String} {value : Int} {vs : ParamValues}
    (h : ∀ x ∈ vs, Text.rank x.1 < Text.rank name) : insert name value vs = vs ++ [(name, value)] := by
  rw [insert, Ascending.place_eq_put]
  exact Ascending.put_eq_append h

abbrev insertAll (vs new : ParamValues) : ParamValues := new.foldl (fun vs (n, v) => insert n v vs) vs

lemma mem_insertAll {vs new : ParamValues} {x : String × Int} (h : x ∈ insertAll vs new) : x ∈ vs ∨ x ∈ new := by
  induction new generalizing vs with
  | nil => exact .inl h
  | cons y new ih =>
    rcases ih h with h | h
    · exact (mem_insert h).elim (fun heq => .inr (heq ▸ mem_cons_self)) .inl
    · exact .inr (mem_cons_of_mem y h)

lemma insertAll_append {vs new : ParamValues} (h : IsAscending (vs ++ new)) : insertAll vs new = vs ++ new := by
  induction new generalizing vs with
  | nil => rw [append_nil]; rfl
  | cons x new ih =>
    have hbefore : ∀ y ∈ vs, Text.rank y.1 < Text.rank x.1 := fun y hy =>
      (pairwise_append.1 h).2.2 y hy x mem_cons_self
    have hinsert : insert x.1 x.2 vs = vs ++ [x] := insert_eq_append hbefore
    have hrest : insertAll (vs ++ [x]) new = vs ++ [x] ++ new := ih (by simpa using h)
    rw [insertAll, foldl_cons]
    exact (congrArg (insertAll · new) hinsert).trans (hrest.trans (by simp))

lemma IsAscending.insertAll {vs : ParamValues} (h : IsAscending vs) (new : ParamValues) :
    IsAscending (insertAll vs new) :=
  foldlRecOn new _ h fun _ h x _ => h.insert x.1 x.2

end ParamValues

namespace Params

variable {change : ParamValues → ParamValues} {ls : List ParamLayer} {s : Params} {p : Platform}

/-- The layers of parameters: names ascend in each, and each platform has one, with its name in
normal form. -/
structure IsNormal (s : Params) : Prop where
  defaults : s.defaults.IsAscending
  overrides : ∀ l ∈ s.overrides, l.values.IsAscending
  platforms : (s.overrides.map (·.platform)).Nodup
  ne_default : ∀ l ∈ s.overrides, l.platform ≠ Platform.default
  parse_eq : ∀ l ∈ s.overrides, Platform.parse l.platform.name = l.platform

lemma platforms_updateLayer (change : ParamValues → ParamValues) (p : Platform) (ls : List ParamLayer) :
    (updateLayer change p ls).map (·.platform) =
      if p ∈ ls.map (·.platform) then ls.map (·.platform) else ls.map (·.platform) ++ [p] := by
  induction ls with
  | nil => rfl
  | cons l ls ih =>
    rw [updateLayer]
    by_cases hl : l.platform = p
    · simp [hl]
    · rw [if_neg (by simpa using hl), map_cons, ih, map_cons]
      simp only [mem_cons, Ne.symm hl, false_or]
      split <;> rfl

lemma mem_updateLayer {l : ParamLayer} (h : l ∈ updateLayer change p ls) :
    l ∈ ls ∨ l = ⟨p, change []⟩ ∨ ∃ x ∈ ls, l = ⟨p, change x.values⟩ := by
  induction ls with
  | nil => exact .inr (.inl (mem_singleton.1 h))
  | cons x xs ih =>
    rw [updateLayer] at h
    split at h
    · next hx =>
      obtain rfl := eq_of_beq hx
      rcases mem_cons.1 h with rfl | h
      · exact .inr (.inr ⟨x, mem_cons_self, rfl⟩)
      · exact .inl (mem_cons_of_mem x h)
    · rcases mem_cons.1 h with rfl | h
      · exact .inl mem_cons_self
      · exact (ih h).imp (mem_cons_of_mem x) (.imp_right fun ⟨y, hy, h⟩ => ⟨y, mem_cons_of_mem x hy, h⟩)

lemma layers_update (s : Params) (change : ParamValues → ParamValues) (p : Platform) :
    (s.update change p).layers = updateLayer change p s.layers := by
  rw [update, show s.layers = ⟨Platform.default, s.defaults⟩ :: s.overrides from rfl, updateLayer]
  by_cases hp : p = Platform.default
  · rw [if_pos (beq_iff_eq.2 hp), if_pos (beq_iff_eq.2 hp.symm)]
    rfl
  · rw [if_neg (by simpa using hp), if_neg (by simpa using Ne.symm hp)]
    rfl

lemma mem_layers_update {l : ParamLayer} (h : l ∈ (s.update change p).layers) :
    l ∈ s.layers ∨ l = ⟨p, change []⟩ ∨ ∃ x ∈ s.layers, l = ⟨p, change x.values⟩ :=
  mem_updateLayer (layers_update s change p ▸ h)

lemma IsNormal.update (h : s.IsNormal)
    (hchange : ∀ vs, ParamValues.IsAscending vs → ParamValues.IsAscending (change vs)) (hp : Platform.parse p.name = p) :
    (s.update change p).IsNormal := by
  rw [Params.update]
  split
  · exact ⟨hchange _ h.defaults, h.overrides, h.platforms, h.ne_default, h.parse_eq⟩
  · next hdefault =>
    have hne : p ≠ Platform.default := by simpa using hdefault
    refine ⟨h.defaults, fun l hl => ?_, ?_, fun l hl => ?_, fun l hl => ?_⟩
    · rcases mem_updateLayer hl with hl | rfl | ⟨x, hx, rfl⟩
      · exact h.overrides l hl
      · exact hchange [] List.Pairwise.nil
      · exact hchange _ (h.overrides x hx)
    · rw [platforms_updateLayer]
      split
      · exact h.platforms
      · next hnew => exact concat_eq_append ▸ h.platforms.concat hnew
    · rcases mem_updateLayer hl with hl | rfl | ⟨x, hx, rfl⟩
      exacts [h.ne_default l hl, hne, hne]
    · rcases mem_updateLayer hl with hl | rfl | ⟨x, hx, rfl⟩
      exacts [h.parse_eq l hl, hp, hp]

lemma isNormal_empty : empty.IsNormal :=
  ⟨List.Pairwise.nil, nofun, nodup_nil, nofun, nofun⟩

lemma isNormal_ofLayers (h : ∀ l ∈ ls, Text.IsText l.platform.name) : (ofLayers ls).IsNormal := by
  refine foldlRecOn ls addLayer isNormal_empty fun s hs l hl => ?_
  exact hs.update (fun vs hvs => hvs.insertAll l.values) (Platform.parse_parse (h l hl))

lemma updateLayer_eq_append (h : ∀ l ∈ ls, l.platform ≠ p) : updateLayer change p ls = ls ++ [⟨p, change []⟩] := by
  induction ls with
  | nil => rfl
  | cons l ls ih =>
    rw [updateLayer, if_neg (by simpa using h l mem_cons_self), ih fun x hx => h x (mem_cons_of_mem l hx)]
    rfl

lemma foldl_addLayer (hvalues : ∀ l ∈ ls, l.values.IsAscending)
    (hplatforms : ((s.overrides ++ ls).map (·.platform)).Nodup) (hdefault : ∀ l ∈ ls, l.platform ≠ Platform.default)
    (hparse : ∀ l ∈ ls, Platform.parse l.platform.name = l.platform) :
    ls.foldl addLayer s = { s with overrides := s.overrides ++ ls } := by
  induction ls generalizing s with
  | nil => simp
  | cons l ls ih =>
    have hl : l ∈ l :: ls := mem_cons_self
    have hnew : ∀ x ∈ s.overrides, x.platform ≠ l.platform := fun x hx => by
      rw [map_append] at hplatforms
      exact (nodup_append.1 hplatforms).2.2 _ (mem_map_of_mem hx) _ (mem_map_of_mem hl)
    have hadd : s.addLayer l = { s with overrides := s.overrides ++ [l] } := by
      have hflat : ParamValues.insertAll [] l.values = l.values := ParamValues.insertAll_append (hvalues l hl)
      rw [addLayer, hparse l hl, update, if_neg (by simpa using hdefault l hl), updateLayer_eq_append hnew]
      exact congrArg (fun vs => { s with overrides := s.overrides ++ [ParamLayer.mk l.platform vs] }) hflat
    rw [foldl_cons, hadd]
    refine (ih (fun x hx => hvalues x (mem_cons_of_mem l hx)) ?_
      (fun x hx => hdefault x (mem_cons_of_mem l hx)) fun x hx => hparse x (mem_cons_of_mem l hx)).trans ?_
    · simpa using hplatforms
    · simp

lemma ofLayers_layers (h : s.IsNormal) : ofLayers s.layers = { s with platform := Platform.default } := by
  have hadd : empty.addLayer ⟨Platform.default, s.defaults⟩ = { defaults := s.defaults } := by
    have hflat : ParamValues.insertAll [] s.defaults = s.defaults := ParamValues.insertAll_append h.defaults
    rw [addLayer, Platform.parse_default, update, if_pos (beq_self_eq_true _)]
    exact congrArg (fun vs => Params.mk vs [] Platform.default) hflat
  rw [ofLayers, layers, foldl_cons, hadd]
  exact foldl_addLayer h.overrides h.platforms h.ne_default h.parse_eq

end Params

/-! ### Rules -/

lemma Rule.isFor_iff {r : Rule} {id filter : String} : r.isFor id filter ↔ r.id = id ∧ r.filter = filter := by
  simp [isFor]

namespace RuleSet

variable {rs : List Rule} {s : RuleSet}

/-- Rules of one id have different filters, and the one for every context comes first. -/
def AreNormal (rs : List Rule) : Prop :=
  rs.Pairwise fun x y => x.id = y.id → x.filter ≠ y.filter ∧ y.filter ≠ ""

lemma upsert_cases (r : Rule) (rs : List Rule) :
    (upsert r rs).map (fun x => (x.id, x.filter)) = rs.map (fun x => (x.id, x.filter)) ∨
      (∀ x ∈ rs, ¬ (x.id = r.id ∧ x.filter = r.filter)) ∧ upsert r rs = rs ++ [r] := by
  induction rs with
  | nil => exact .inr ⟨nofun, rfl⟩
  | cons x xs ih =>
    rw [upsert]
    by_cases hx : x.isFor r.id r.filter = true
    · rw [if_pos hx]
      exact .inl rfl
    · rw [if_neg hx]
      refine ih.imp (fun h => ?_) fun ⟨hnone, h⟩ => ⟨forall_mem_cons.2 ⟨?_, hnone⟩, ?_⟩
      · rw [map_cons, h, map_cons]
      · exact mt Rule.isFor_iff.2 hx
      · rw [h, cons_append]

lemma mem_upsert {r x : Rule} (h : x ∈ upsert r rs) : x = r ∨ x ∈ rs := by
  induction rs with
  | nil => exact .inl (mem_singleton.1 h)
  | cons y ys ih =>
    rw [upsert] at h
    split at h
    · next hfor =>
      obtain ⟨hid, hfilter⟩ := Rule.isFor_iff.1 hfor
      rcases mem_cons.1 h with rfl | h
      · exact .inl (by rw [hid, hfilter])
      · exact .inr (mem_cons_of_mem y h)
    · rcases mem_cons.1 h with rfl | h
      · exact .inr mem_cons_self
      · exact (ih h).imp_right (mem_cons_of_mem y)

lemma upsert_eq_append {r : Rule} (h : ∀ x ∈ rs, ¬ (x.id = r.id ∧ x.filter = r.filter)) :
    upsert r rs = rs ++ [r] := by
  induction rs with
  | nil => rfl
  | cons x xs ih =>
    rw [upsert, if_neg (mt Rule.isFor_iff.1 (h x mem_cons_self)), ih fun y hy => h y (mem_cons_of_mem x hy)]
    rfl

lemma rules_add (s : RuleSet) (r : Rule) :
    (s.add r).rules = upsert r (if r.filter = "" then (s.clearAll r.id).rules else s.rules) := by
  simp only [add, beq_iff_eq]
  split
  · refine (upsert_eq_append fun x hx hfor => ?_).symm
    simpa [hfor.1] using (mem_filter.1 hx).2
  · rfl

lemma mem_add {r x : Rule} (h : x ∈ (s.add r).rules) : x = r ∨ x ∈ s.rules := by
  rw [rules_add] at h
  refine (mem_upsert h).imp_right fun hx => ?_
  split at hx
  · exact mem_of_mem_filter hx
  · exact hx

lemma mem_of_mem_ofList {x : Rule} (h : x ∈ (ofList rs).rules) : x ∈ rs := by
  refine List.foldlRecOn (motive := fun s => ∀ y ∈ s.rules, y ∈ rs) rs add (forall_mem_nil _)
    (fun s hs r hr y hy => ?_) x h
  exact (mem_add hy).elim (fun heq => heq ▸ hr) (hs y)

lemma areNormal_iff_map : AreNormal rs ↔
    (rs.map fun x => (x.id, x.filter)).Pairwise fun x y => x.1 = y.1 → x.2 ≠ y.2 ∧ y.2 ≠ "" := by
  rw [pairwise_map, AreNormal]

lemma areNormal_add (h : AreNormal s.rules) (r : Rule) : AreNormal (s.add r).rules := by
  rw [add]
  split
  · refine pairwise_append.2 ⟨h.filter _, pairwise_singleton _ _, fun x hx y hy hid => ?_⟩
    obtain rfl := mem_singleton.1 hy
    have hne := (mem_filter.1 hx).2
    simp [hid] at hne
  · next hfilter =>
    rw [set]
    obtain hmap | ⟨hnone, happend⟩ := upsert_cases r s.rules
    · exact areNormal_iff_map.2 (hmap ▸ areNormal_iff_map.1 h)
    · rw [happend]
      refine pairwise_append.2 ⟨h, pairwise_singleton _ _, fun x hx y hy hid => ?_⟩
      obtain rfl := mem_singleton.1 hy
      exact ⟨fun heq => hnone x hx ⟨hid, heq⟩, by simpa using hfilter⟩

lemma areNormal_ofList (rs : List Rule) : AreNormal (ofList rs).rules :=
  foldlRecOn (motive := fun s : RuleSet => AreNormal s.rules) rs add .nil fun _ h r _ => areNormal_add h r

lemma add_eq_append {r : Rule} (h : ∀ x ∈ s.rules, x.id = r.id → x.filter ≠ r.filter ∧ r.filter ≠ "") :
    s.add r = ⟨s.rules ++ [r]⟩ := by
  rw [add]
  split
  · next hfilter =>
    have hkeep : (s.clearAll r.id).rules = s.rules := by
      refine filter_eq_self.2 fun x hx => ?_
      rw [Bool.not_eq_true', beq_eq_false_iff_ne]
      exact fun hid => (h x hx hid).2 (eq_of_beq hfilter)
    rw [hkeep]
  · exact congrArg mk (upsert_eq_append fun x hx ⟨hid, hfilter⟩ => (h x hx hid).1 hfilter)

lemma foldl_add (h : AreNormal (s.rules ++ rs)) : rs.foldl add s = ⟨s.rules ++ rs⟩ := by
  induction rs generalizing s with
  | nil => simp
  | cons r rs ih =>
    have hadd : s.add r = ⟨s.rules ++ [r]⟩ := add_eq_append fun x hx => (pairwise_append.1 h).2.2 x hx r mem_cons_self
    rw [foldl_cons, hadd]
    refine (ih ?_).trans (by simp)
    simpa using h

lemma ofList_rules (rs : List Rule) : ofList (ofList rs).rules = ofList rs :=
  foldl_add (s := empty) (areNormal_ofList rs)

end RuleSet

end BytecodeAudit
