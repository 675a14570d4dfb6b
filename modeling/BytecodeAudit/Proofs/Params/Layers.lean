import BytecodeAudit.CommandLine.Commands
import BytecodeAudit.Proofs.Rules.Meaning

/-!
# Flat layers and listed names

Building parameters from their flat layers gives them back (`roundTrips_run`), also through their
text: building normalizes the names of platforms, and a name in normal form stays. Layers of one
platform are merged (`platforms_ofLayers`), and the last value of a name stays
(`entries_ofLayers_eq`).

The names that are listed are those of all layers (`mem_names_iff`), and a look-up only sees two of
them.
-/

namespace BytecodeAudit

open List Option

/-! ### Parameters as a table of platforms and names

A table gives a value to some pairs of a platform and a name (`entries`), with look-ups that fall
back to the default platform (`ValueTable.lookup`). Every change of parameters is a change of the
table (`entries_apply`); the layers matter only in that each platform has one
(`HasDistinctLayers`). -/

/-! ### Values by name -/

lemma ParamValues.get?_cons (x : String × Int) (vs : ParamValues) (name : String) :
    get? (x :: vs) name = if x.1 = name then some x.2 else get? vs name := by
  rw [get?, find?_cons]
  by_cases h : x.1 = name
  · rw [if_pos h, beq_iff_eq.2 h]
    rfl
  · rw [if_neg h, beq_false_of_ne h]
    rfl

/-- A value that is inserted is found under its name and nowhere else. -/
@[simp]
lemma ParamValues.get?_insert (name : String) (value : Int) (vs : ParamValues) (m : String) :
    get? (insert name value vs) m = if m = name then some value else get? vs m := by
  rw [insert]
  induction vs with
  | nil =>
    rw [Text.place, get?_cons]
    exact if_congr eq_comm rfl rfl
  | cons x vs ih =>
    obtain ⟨n, v⟩ := x
    rw [Text.place]
    split
    · next heq =>
      obtain rfl := eq_of_beq heq
      rw [get?_cons, get?_cons]
      by_cases h : m = n
      · rw [if_pos h, if_pos h.symm]
      · rw [if_neg h, if_neg (Ne.symm h), if_neg (Ne.symm h)]
    · next hne =>
      split
      · rw [get?_cons]
        exact if_congr eq_comm rfl rfl
      · rw [get?_cons, ih, get?_cons]
        by_cases h : m = name
        · have hn : n ≠ m := fun hn => hne (beq_iff_eq.2 (hn.trans h))
          rw [if_neg hn, if_pos h, if_pos h]
        · rw [if_neg h, if_neg h]

namespace Params

/-! ### The table -/

abbrev ValueTable := Platform → String → Option Int

namespace ValueTable

def put (t : ValueTable) (name : String) (value : Int) (p : Platform) : ValueTable :=
  fun q m => if q = p ∧ m = name then some value else t q m

def register (t : ValueTable) (name : String) (value : Int) : ValueTable :=
  if (t Platform.default name).isSome then t else t.put name value Platform.default

def putLayer (t : ValueTable) (l : ParamLayer) : ValueTable :=
  l.values.foldl (fun t (n, v) => t.put n v (Platform.parse l.platform.name)) t

def ofLayers (ls : List ParamLayer) : ValueTable := ls.foldl putLayer fun _ _ => none

def lookup (t : ValueTable) (name : String) (p : Platform) : Option Int := (t p name).or (t Platform.default name)

end ValueTable

def valuesIn (ls : List ParamLayer) (p : Platform) : ParamValues :=
  ((ls.find? (·.platform == p)).map (·.values)).getD []

def entries (s : Params) : ValueTable := fun p name => (valuesIn s.layers p).get? name

lemma valuesIn_cons (l : ParamLayer) (ls : List ParamLayer) (p : Platform) :
    valuesIn (l :: ls) p = if l.platform = p then l.values else valuesIn ls p := by
  rw [valuesIn, find?_cons]
  by_cases h : l.platform = p
  · rw [if_pos h, beq_iff_eq.2 h]
    rfl
  · rw [if_neg h, beq_false_of_ne h]
    rfl

variable (s : Params) (ls : List ParamLayer) (name : String)

lemma valuesIn_layers (p : Platform) :
    valuesIn s.layers p = if p = Platform.default then s.defaults else valuesIn s.overrides p := by
  rw [layers, valuesIn_cons]
  exact if_congr eq_comm rfl rfl

lemma get?_eq_lookup (p : Platform) : s.get? name p = s.entries.lookup name p := by
  show (if p == Platform.default then none else (s.override? p).bind (·.values.get? name)).orElse
    (fun _ => s.defaults.get? name) = ((valuesIn s.layers p).get? name).or (s.defaults.get? name)
  rw [or_eq_orElse, valuesIn_layers]
  by_cases hp : p = Platform.default
  · rw [if_pos hp, if_pos (beq_iff_eq.2 hp)]
    cases s.defaults.get? name <;> rfl
  · rw [if_neg hp, if_neg (by simpa using hp), override?, valuesIn]
    cases s.overrides.find? (·.platform == p) <;> rfl

lemma getFor_eq (p : Platform) :
    s.getFor name p = (s.entries.lookup name p).elim (.error (.parameterNotRegistered name)) .ok := by
  rw [getFor, get?_eq_lookup]
  cases s.entries.lookup name p <;> rfl

namespace ValueTable

lemma foldl_put_of_ne (t : ValueTable) (vs : ParamValues) {p q : Platform} (hq : q ≠ p) (m : String) :
    vs.foldl (fun t (n, v) => t.put n v p) t q m = t q m := by
  induction vs generalizing t with
  | nil => rfl
  | cons x vs ih =>
    rw [foldl_cons, ih]
    exact if_neg fun h => hq h.1

lemma foldl_put_self {t : ValueTable} {p : Platform} {ws : ParamValues} (h : ∀ m, t p m = ws.get? m) (vs : ParamValues)
    (m : String) : vs.foldl (fun t (n, v) => t.put n v p) t p m = (ParamValues.insertAll ws vs).get? m := by
  induction vs generalizing t ws with
  | nil => exact h m
  | cons x vs ih =>
    rw [foldl_cons, ParamValues.insertAll, foldl_cons]
    refine ih fun k => ?_
    show (if p = p ∧ k = x.1 then some x.2 else t p k) = (ParamValues.insert x.1 x.2 ws).get? k
    rw [ParamValues.get?_insert, h k]
    exact if_congr (and_iff_right rfl) rfl rfl

lemma lookup_put (t : ValueTable) (name : String) (value : Int) (p : Platform) (m : String) (q : Platform) :
    (t.put name value p).lookup m q =
      if m = name ∧ (q = p ∨ p = Platform.default ∧ t q name = none) then some value else t.lookup m q := by
  rw [lookup, lookup, put, put]
  by_cases hm : m = name
  · subst hm
    by_cases hq : q = p
    · simp [hq]
    · by_cases hp : p = Platform.default
      · subst hp
        cases t q m <;> simp [hq]
      · simp [hq, hp, Ne.symm hp]
  · simp [hm]

lemma lookup_register (t : ValueTable) (name : String) (value : Int) (m : String) (q : Platform) :
    (t.register name value).lookup m q = if m = name then some ((t.lookup name q).getD value) else t.lookup m q := by
  rw [register]
  by_cases hm : m = name
  · subst hm
    cases hdefault : t Platform.default m with
    | some d => cases hown : t q m <;> simp [lookup, hdefault, hown]
    | none =>
      rw [if_neg (by simp), lookup_put, if_pos rfl, lookup, hdefault, or_none]
      cases hown : t q m with
      | none => simp
      | some v =>
        have hne : q ≠ Platform.default := fun hq => by
          rw [hq, hdefault] at hown
          cases hown
        simp [hne]
  · rw [if_neg hm]
    split
    · rfl
    · rw [lookup_put, if_neg fun h => hm h.1]

end ValueTable

/-! ### Changes of the layers -/

lemma valuesIn_updateLayer (change : ParamValues → ParamValues) (p : Platform) (ls : List ParamLayer) (q : Platform) :
    valuesIn (updateLayer change p ls) q = if q = p then change (valuesIn ls p) else valuesIn ls q := by
  induction ls with
  | nil =>
    rw [updateLayer, valuesIn_cons]
    exact if_congr eq_comm rfl rfl
  | cons l ls ih =>
    rw [updateLayer, valuesIn_cons, valuesIn_cons]
    by_cases hl : l.platform = p
    · rw [if_pos (beq_iff_eq.2 hl), if_pos hl, valuesIn_cons]
      by_cases hq : q = p
      · rw [if_pos hq, if_pos (hl.trans hq.symm)]
      · have hlq : l.platform ≠ q := fun h => hq (h.symm.trans hl)
        rw [if_neg hq, if_neg hlq, if_neg hlq]
    · rw [if_neg (by simpa using hl), if_neg hl, valuesIn_cons, ih]
      by_cases hq : q = p
      · rw [if_pos hq, if_pos hq, if_neg fun h => hl (h.trans hq)]
      · rw [if_neg hq, if_neg hq]

lemma entries_set (value : Int) (p : Platform) : (s.set name value p).entries = s.entries.put name value p := by
  funext q m
  rw [entries, set, layers_update, valuesIn_updateLayer, ValueTable.put]
  by_cases hq : q = p
  · rw [if_pos hq, ParamValues.get?_insert, hq]
    exact if_congr (and_iff_right rfl).symm rfl rfl
  · rw [if_neg hq, if_neg fun h => hq h.1]
    rfl

lemma entries_register (value : Int) : (s.register name value).entries = s.entries.register name value := by
  have hset : s.set name value Platform.default =
      { s with defaults := ParamValues.insert name value s.defaults } := rfl
  rw [register, ValueTable.register, ← hset, ← entries_set]
  exact apply_ite entries _ _ _

lemma entries_addLayer (l : ParamLayer) : (s.addLayer l).entries = s.entries.putLayer l := by
  funext q m
  rw [entries, addLayer, layers_update, valuesIn_updateLayer, ValueTable.putLayer]
  split
  · next hq =>
    rw [hq]
    exact (ValueTable.foldl_put_self (fun _ => rfl) l.values m).symm
  · next hq => exact (ValueTable.foldl_put_of_ne s.entries l.values hq m).symm

lemma entries_ofLayers : (ofLayers ls).entries = ValueTable.ofLayers ls := by
  have hempty : empty.entries = fun _ _ => none := by
    funext p m
    rw [entries, valuesIn_layers]
    split <;> rfl
  rw [ofLayers, ValueTable.ofLayers, ← hempty]
  exact (foldl_hom entries fun s l => (entries_addLayer s l).symm).symm

/-! ### Changes -/

inductive Change where
  | register (name : String) (value : Int)
  | set (name : String) (value : Int) (p : Platform)
  | prefer (p : Platform)
  | read (text : String)

def readLayers? (text : String) : Option (List ParamLayer) := (Json.parse? text).bind decodeLayers

/-- Makes a change. A text that cannot be read changes nothing. -/
def apply (s : Params) : Change → Params
  | .register name value => s.register name value
  | .set name value p => s.set name value p
  | .prefer p => { s with platform := p }
  | .read text => ((Json.parse? text).bind s.decode).getD s

def run (ls : List ParamLayer) (cs : List Change) : Params := cs.foldl apply (ofLayers ls)

def ValueTable.apply (t : ValueTable) : Change → ValueTable
  | .register name value => t.register name value
  | .set name value p => t.put name value p
  | .prefer _ => t
  | .read text => ((readLayers? text).map ValueTable.ofLayers).getD t

def ValueTable.run (ls : List ParamLayer) (cs : List Change) : ValueTable := cs.foldl ValueTable.apply (ValueTable.ofLayers ls)

lemma apply_read (text : String) : s.apply (.read text) =
    ((readLayers? text).map fun ls => { ofLayers ls with platform := s.platform }).getD s := by
  rw [apply, readLayers?]
  cases Json.parse? text <;> rfl

lemma entries_apply (c : Change) : (s.apply c).entries = s.entries.apply c := by
  cases c with
  | register name value => exact s.entries_register name value
  | set name value p => exact s.entries_set name value p
  | prefer p => rfl
  | read text =>
    rw [apply_read, ValueTable.apply]
    cases readLayers? text with
    | none => rfl
    | some ls => exact entries_ofLayers ls

lemma entries_run (cs : List Change) : (run ls cs).entries = ValueTable.run ls cs := by
  rw [run, ValueTable.run, ← entries_ofLayers]
  exact (foldl_hom entries fun s c => (entries_apply s c).symm).symm

/-! ### One layer for each platform -/

def HasDistinctLayers (s : Params) : Prop := (s.layers.map (·.platform)).Nodup

lemma HasDistinctLayers.update {s : Params} (h : s.HasDistinctLayers) (change : ParamValues → ParamValues)
    (p : Platform) : (s.update change p).HasDistinctLayers := by
  rw [HasDistinctLayers, layers_update, platforms_updateLayer]
  split
  · exact h
  · next hnew => exact concat_eq_append ▸ h.concat hnew

lemma hasDistinctLayers_ofLayers : (ofLayers ls).HasDistinctLayers :=
  foldlRecOn ls addLayer (nodup_singleton _) fun _ hs _ _ => hs.update _ _

lemma HasDistinctLayers.apply {s : Params} (h : s.HasDistinctLayers) (c : Change) :
    (s.apply c).HasDistinctLayers := by
  cases c with
  | register name value =>
    show (s.register name value).HasDistinctLayers
    rw [register]
    split
    · exact h
    · exact h
  | set name value p => exact h.update _ _
  | prefer p => exact h
  | read text =>
    rw [apply_read]
    cases readLayers? text with
    | none => exact h
    | some ls => exact hasDistinctLayers_ofLayers ls

lemma hasDistinctLayers_run (cs : List Change) : (run ls cs).HasDistinctLayers :=
  foldlRecOn cs apply (hasDistinctLayers_ofLayers ls) fun _ hs c _ => hs.apply c

/-! ### Refinement -/

/-- Whether parameters behave like a table of values by platform and name. -/
structure Refines (s : Params) (t : ValueTable) : Prop where
  /-- The first layer is that of the default platform. -/
  first : (s.layers.map (·.platform)).head? = some Platform.default
  distinct : s.HasDistinctLayers
  /-- The values of the layers are those of the table. -/
  entries_eq : s.entries = t
  /-- A look-up gives the value of the platform, or else that of the default platform, or else
  fails. -/
  getFor_eq : ∀ name p, s.getFor name p = (t.lookup name p).elim (.error (.parameterNotRegistered name)) .ok
  /-- Setting a value changes the look-ups of its name on its platform, and from the default one on
  every platform without a value. -/
  getFor_set : ∀ name value p m q, (s.set name value p).getFor m q =
    if m = name ∧ (q = p ∨ p = Platform.default ∧ t q name = none) then .ok value else s.getFor m q
  /-- Registering a name gives its default value to the look-ups of the name that failed. -/
  getFor_register : ∀ name value m q, (s.register name value).getFor m q =
    if m = name then .ok ((t.lookup name q).getD value) else s.getFor m q
  /-- A text that cannot be read changes nothing. -/
  apply_read : ∀ text, (Json.parse? text).bind s.decode = none → s.apply (.read text) = s

/-- Parameters that changes lead to, from any flat layers, behave like the table that the same
changes lead to. -/
theorem refines_run (ls : List ParamLayer) (cs : List Change) : (run ls cs).Refines (ValueTable.run ls cs) := by
  rw [← entries_run]
  refine ⟨rfl, hasDistinctLayers_run ls cs, rfl, getFor_eq _, fun name value p m q => ?_, fun name value m q => ?_, ?_⟩
  · rw [getFor_eq, getFor_eq, entries_set, ValueTable.lookup_put]
    split <;> rfl
  · rw [getFor_eq, getFor_eq, entries_register, ValueTable.lookup_register]
    split <;> rfl
  · intro text htext
    rw [apply, htext]
    rfl

end Params

namespace ParamValues

lemma get?_append (vs ws : ParamValues) (m : String) : get? (vs ++ ws) m = (get? vs m).or (get? ws m) := by
  rw [get?, find?_append, get?, get?]
  cases vs.find? (·.1 == m) <;> rfl

lemma get?_eq_none_iff {vs : ParamValues} {m : String} : get? vs m = none ↔ ∀ v ∈ vs, v.1 ≠ m := by
  simp [get?]

lemma get?_insertAll (vs new : ParamValues) (m : String) :
    (insertAll vs new).get? m = get? (new.reverse ++ vs) m := by
  induction new generalizing vs with
  | nil => rfl
  | cons x new ih =>
    rw [insertAll, foldl_cons, reverse_cons, append_assoc, get?_append]
    refine (ih _).trans ?_
    rw [get?_append, get?_insert, singleton_append, get?_cons]
    exact congrArg _ (if_congr eq_comm rfl rfl)

end ParamValues

namespace Params

variable {ls : List ParamLayer} {cs : List Change} {s : Params} {p : Platform} {name : String}

lemma platforms_ofLayers (ls : List ParamLayer) : (ofLayers ls).layers.map (·.platform) =
    (Platform.default :: ls.map fun l => Platform.parse l.platform.name).eraseDups := by
  induction ls using reverseRecOn with
  | nil => rfl
  | append_singleton ls l ih =>
    rw [ofLayers, foldl_append, foldl_cons, foldl_nil, ← ofLayers, addLayer, layers_update,
      platforms_updateLayer, ih, map_append, ← cons_append, eraseDups_append]
    generalize Platform.default :: ls.map (fun l => Platform.parse l.platform.name) = ps
    by_cases hp : Platform.parse l.platform.name ∈ ps
    · simp [removeAll, hp]
    · simp [removeAll, hp, eraseDups_cons]

lemma entries_ofLayers_eq (ls : List ParamLayer) (p : Platform) (name : String) : (ofLayers ls).entries p name =
    ParamValues.get? ((ls.filter (Platform.parse ·.platform.name = p)).flatMap (·.values)).reverse name := by
  induction ls using reverseRecOn with
  | nil =>
    rw [entries, valuesIn_layers]
    split <;> rfl
  | append_singleton ls l ih =>
    rw [ofLayers, foldl_append, foldl_cons, foldl_nil, ← ofLayers, entries, addLayer, layers_update,
      valuesIn_updateLayer, filter_append, flatMap_append, reverse_append, ParamValues.get?_append, ← ih]
    by_cases hp : Platform.parse l.platform.name = p
    · rw [if_pos hp.symm, hp]
      refine (ParamValues.get?_insertAll ..).trans ?_
      rw [ParamValues.get?_append]
      simp [hp, entries]
    · rw [if_neg (Ne.symm hp)]
      simp [hp, entries, ParamValues.get?]

/-! ### Round trips -/

def Change.IsNormal : Change → Prop
  | .set _ _ p => Platform.parse p.name = p
  | .read _ => False
  | _ => True

lemma IsNormal.apply (h : s.IsNormal) {c : Change} (hc : c.IsNormal) : (s.apply c).IsNormal := by
  cases c with
  | register name value =>
    show (s.register name value).IsNormal
    rw [register]
    split
    · exact h
    · exact { h with defaults := h.defaults.insert name value }
  | set name value p => exact h.update (fun _ hvs => hvs.insert name value) hc
  | prefer p => exact { h with }
  | read text => exact hc.elim

lemma isNormal_run (hls : ∀ l ∈ ls, Text.IsText l.platform.name) (hcs : ∀ c ∈ cs, c.IsNormal) :
    (run ls cs).IsNormal :=
  foldlRecOn cs Params.apply (isNormal_ofLayers hls) fun _ hs c hc => hs.apply (hcs c hc)

/-- Whether parameters are given back by their flat layers, by a copy and by their text. -/
structure RoundTrips (s : Params) : Prop where
  rebuilt : (ofLayers s.layers).layers = s.layers
  getFor_clone : ∀ name p, s.clone.getFor name p = s.getFor name p
  get_clone : ∀ name, s.clone.get name = s.get name
  /-- Values that can be written can be read, in place of any others. -/
  reread : (∀ l ∈ s.layers, ∀ v ∈ l.values, Text.IsValid v.1 ∧ Pack.IsLong v.2) → ∀ t : Params, ∃ u,
    (Json.parse? s.toJson.compress).bind t.decode = some u ∧ u.layers = s.layers ∧ u.fingerprint = s.fingerprint

lemma IsNormal.isValid_platform (h : s.IsNormal) : ∀ l ∈ s.layers, Text.IsValid l.platform.name :=
  forall_mem_cons.2 ⟨(by decide : Text.IsValid ""), fun l hl =>
    h.parse_eq l hl ▸ Platform.isValid_parse l.platform.name⟩

lemma IsNormal.decodeLayers_parse? (h : s.IsNormal)
    (hvalues : ∀ l ∈ s.layers, ∀ v ∈ l.values, Text.IsValid v.1 ∧ Pack.IsLong v.2) :
    (Json.parse? s.toJson.compress).bind decodeLayers = some s.layers := by
  have hplain : s.toJson.IsPlain := Json.isPlain_array_iff.2 <| forall_mem_map.2 fun l hl =>
    ParamLayer.isPlain_toJson (h.isValid_platform l hl) fun v hv => (hvalues l hl v hv).1
  have hnesting : s.toJson.nesting ≤ 3 + 1 := Json.nesting_array_map_le fun l _ => l.nesting_toJson_le
  have hdecode : Json.decodeList ParamLayer.decode s.toJson = some s.layers :=
    Json.decodeList_map fun l hl => ParamLayer.decode_toJson fun v hv => (hvalues l hl v hv).2
  rw [Json.parse?_compress hplain.clean (hnesting.trans (by decide)), bind_some, decodeLayers, hdecode,
    bind_eq_bind, bind_some, hplain.unrepeated]
  rfl

lemma IsNormal.roundTrips (h : s.IsNormal) : s.RoundTrips := by
  have hclone : s.clone = s := by rw [clone, ofLayers_layers h]
  refine ⟨by rw [ofLayers_layers h]; rfl, fun name p => by rw [hclone], fun name => by rw [hclone], fun hvalues t => ?_⟩
  refine ⟨{ s with platform := t.platform }, ?_, rfl, rfl⟩
  obtain ⟨j, hj, hread⟩ := bind_eq_some_iff.1 (h.decodeLayers_parse? hvalues)
  rw [hj, bind_some, decode, hread, map_some, ofLayers_layers h]

/-- Parameters are given back by their layers after any changes under normal names, and the layers
they were built from are merged. -/
theorem roundTrips_run (hls : ∀ l ∈ ls, Text.IsText l.platform.name) (hcs : ∀ c ∈ cs, c.IsNormal) :
    (run ls cs).RoundTrips ∧ (ofLayers ls).layers.map (·.platform) =
      (Platform.default :: ls.map fun l => Platform.parse l.platform.name).eraseDups ∧
    ∀ p name, (ofLayers ls).entries p name =
      ParamValues.get? ((ls.filter (Platform.parse ·.platform.name = p)).flatMap (·.values)).reverse name :=
  ⟨(isNormal_run hls hcs).roundTrips, platforms_ofLayers ls, entries_ofLayers_eq ls⟩

def spelledTwice : List ParamLayer :=
  [⟨⟨" Android "⟩, [("x", 1)]⟩, ⟨⟨"default"⟩, [("x", 2)]⟩, ⟨⟨"ANDROID"⟩, [("x", 3)]⟩]

theorem roundTrips_run_spelledTwice : (run spelledTwice [.set "x" 4 .ios, .register "y" 5]).RoundTrips := by
  have hls : ∀ l ∈ spelledTwice, Text.IsAscii l.platform.name := by decide
  have hios : Platform.parse Platform.ios.name = .ios := Platform.parse_eq_self (by decide) (by decide) (by decide)
  refine (roundTrips_run (fun l hl => (hls l hl).isText) ?_).1
  exact List.forall_mem_cons.2 ⟨hios, List.forall_mem_singleton.2 trivial⟩

/-! ### Listed names -/

lemma valuesIn_of_mem (h : (ls.map (·.platform)).Nodup) {l : ParamLayer} (hl : l ∈ ls) :
    valuesIn ls l.platform = l.values := by
  induction ls with
  | nil => cases hl
  | cons x xs ih =>
    rw [map_cons, nodup_cons] at h
    rw [valuesIn_cons]
    rcases mem_cons.1 hl with rfl | hl
    · exact if_pos rfl
    · have hne : x.platform ≠ l.platform := fun heq => h.1 (heq ▸ mem_map_of_mem hl)
      rw [if_neg hne, ih h.2 hl]

lemma mem_names_iff (h : s.HasDistinctLayers) : name ∈ s.names ↔ ∃ p, s.entries p name ≠ none := by
  have hmem : name ∈ s.names ↔ ∃ l ∈ s.layers, l.values.get? name ≠ none := by
    simp [names, ParamValues.get?_eq_none_iff]
  rw [hmem]
  constructor
  · rintro ⟨l, hl, hvalue⟩
    exact ⟨l.platform, by rwa [entries, valuesIn_of_mem h hl]⟩
  · rintro ⟨p, hvalue⟩
    rw [entries, valuesIn] at hvalue
    cases hfind : s.layers.find? (·.platform == p) with
    | none => exact absurd rfl (hfind ▸ hvalue)
    | some l => exact ⟨l, mem_of_find?_eq_some hfind, by rwa [hfind] at hvalue⟩

lemma exists_getFor_iff :
    (∃ v, s.getFor name p = .ok v) ↔ s.entries p name ≠ none ∨ s.entries Platform.default name ≠ none := by
  rw [getFor_eq, ValueTable.lookup]
  cases s.entries p name <;> cases s.entries Platform.default name <;> simp

lemma getFor_eq_error_iff {f : Failure} : s.getFor name p = .error f ↔
    f = .parameterNotRegistered name ∧ s.entries p name = none ∧ s.entries Platform.default name = none := by
  rw [getFor_eq, ValueTable.lookup]
  cases s.entries p name <;> cases s.entries Platform.default name <;> simp [eq_comm]

lemma mapM_cases {α β : Type} (f : α → Except Failure β) (xs : List α) :
    (∃ ys, xs.mapM f = .ok ys) ∧ (∀ x ∈ xs, ∃ y, f x = .ok y) ∨
      ∃ x ∈ xs, ∃ e, f x = .error e ∧ xs.mapM f = .error e := by
  induction xs with
  | nil => exact .inl ⟨⟨[], rfl⟩, nofun⟩
  | cons x xs ih =>
    rw [mapM_cons]
    cases hx : f x with
    | error e => exact .inr ⟨x, mem_cons_self, e, hx, rfl⟩
    | ok y =>
      obtain ⟨⟨ys, hys⟩, hall⟩ | ⟨x', hx', e, he, hxs⟩ := ih
      · exact .inl ⟨⟨y :: ys, by rw [hys]; rfl⟩, forall_mem_cons.2 ⟨⟨y, hx⟩, hall⟩⟩
      · exact .inr ⟨x', mem_cons_of_mem x hx', e, he, by rw [hxs]; rfl⟩

lemma tableFor_cases (s : Params) (p : Platform) :
    (∃ t, s.tableFor p = .ok t) ∧ (∀ name ∈ s.names, ∃ v, s.getFor name p = .ok v) ∨
      ∃ name ∈ s.names, ∃ f, s.getFor name p = .error f ∧ s.tableFor p = .error f := by
  rw [tableFor]
  obtain ⟨⟨ys, hys⟩, hall⟩ | ⟨name, hname, f, hf, hfail⟩ := mapM_cases (fun name => do
    let value ← s.getFor name p
    .ok (name, value)) s.names
  · refine .inl ⟨⟨_, by rw [hys]; rfl⟩, fun name hname => ?_⟩
    obtain ⟨y, hy⟩ := hall name hname
    exact (Failure.exists_of_bind_eq_ok hy).imp fun _ => And.left
  · refine .inr ⟨name, hname, f, ?_, by rw [hfail]; rfl⟩
    cases hget : s.getFor name p with
    | error e => exact congrArg Except.error (Except.error.inj (hget ▸ hf))
    | ok v => rw [hget] at hf; cases hf

/-- What the listed names say about look-ups. -/
structure ListsValues (s : Params) : Prop where
  /-- A name is listed if it has a value on some platform. -/
  mem_names : ∀ name, name ∈ s.names ↔ ∃ q, s.entries q name ≠ none
  /-- A name with a default value is listed, and every platform has a value of it. -/
  registered : ∀ name, s.entries Platform.default name ≠ none →
    name ∈ s.names ∧ ∀ p, ∃ v, s.getFor name p = .ok v
  /-- Every listed name has a value on every platform exactly if all of them have default values. -/
  registered_iff : (∀ name ∈ s.names, ∀ p, ∃ v, s.getFor name p = .ok v) ↔
    ∀ name ∈ s.names, s.entries Platform.default name ≠ none
  /-- A look-up of a listed name fails where the name is set for other platforms only. -/
  getFor_eq_error : ∀ name ∈ s.names, ∀ p, s.getFor name p = .error (.parameterNotRegistered name) ↔
    s.entries p name = none ∧ s.entries Platform.default name = none
  /-- The values of a platform are listed if every listed name has one there. Otherwise the failure
  is that of a name without. -/
  tableFor_cases : ∀ p, (∃ t, s.tableFor p = .ok t) ∧ (∀ name ∈ s.names, ∃ v, s.getFor name p = .ok v) ∨
    ∃ name ∈ s.names, s.tableFor p = .error (.parameterNotRegistered name) ∧
      s.entries p name = none ∧ s.entries Platform.default name = none

lemma HasDistinctLayers.listsValues (h : s.HasDistinctLayers) : s.ListsValues where
  mem_names _ := mem_names_iff h
  registered _ hname := ⟨(mem_names_iff h).2 ⟨_, hname⟩, fun _ => exists_getFor_iff.2 (.inr hname)⟩
  registered_iff := forall₂_congr fun name _ => ⟨fun hall => or_self_iff.1 (exists_getFor_iff.1 (hall Platform.default)),
    fun hname _ => exists_getFor_iff.2 (.inr hname)⟩
  getFor_eq_error _ _ _ := getFor_eq_error_iff.trans (and_iff_right rfl)
  tableFor_cases p := (s.tableFor_cases p).imp_right fun ⟨name, hname, f, hget, htable⟩ => by
    obtain ⟨rfl, hnone⟩ := getFor_eq_error_iff.1 hget
    exact ⟨name, hname, htable, hnone⟩

lemma hasDistinctLayers_of_create {config : Config} {version : String} {cache : Option Cache} {d d' : Disk}
    {a : Auditor} {log : List LogRecord}
    (h : Auditor.create config Analyzer.builtin version cache d = .ok (a, log, d')) :
    a.registry.params.HasDistinctLayers := by
  let cs : List Change := .register Analyzer.Assembly.sizeLimit 2048 ::
    Analyzer.Settings.thresholds.map fun x => .register x.1 x.2
  have hrun : a.registry.params = run (config.params.map (·.flat)) cs := Auditor.params_of_create h
  exact hrun ▸ hasDistinctLayers_run _ cs

theorem listsValues_run (ls : List ParamLayer) (cs : List Change) : (run ls cs).ListsValues ∧
    ∀ config version cache d a log d', Auditor.create config Analyzer.builtin version cache d = .ok (a, log, d') →
      a.registry.params.ListsValues :=
  ⟨(hasDistinctLayers_run ls cs).listsValues, fun _ _ _ _ _ _ _ h => (hasDistinctLayers_of_create h).listsValues⟩

/-- A configuration that sets a parameter for one platform only. -/
def framesOnAndroid : Config := { params := [{ platform := .android, values := some [("Frames", 1)] }] }

theorem exists_listed_not_registered : ∃ a, Auditor.create framesOnAndroid Analyzer.builtin "dev" (some .disabled) {} =
    .ok (a, [], {}) ∧ "Frames" ∈ a.registry.params.names ∧
      a.registry.params.getFor "Frames" .ios = .error (.parameterNotRegistered "Frames") ∧
      ∃ f, a.registry.params.tableFor .ios = .error f := by
  have hconfig (c : Catalog) : framesOnAndroid.IsAcceptable (some c) :=
    Config.isAcceptable_of_rules (List.forall_mem_nil _) (by decide)
  obtain ⟨a, hcreate, -, -, -, hparams⟩ := Auditor.exists_create rfl (fun c _ => hconfig c) "dev" .disabled {}
  have hbuilt : ofLayers (framesOnAndroid.params.map (·.flat)) = { overrides := [⟨.android, [("Frames", 1)]⟩] } := by
    show empty.update _ (Platform.parse Platform.android.name) = _
    rw [Platform.parse_eq_self (by decide) (by decide) (by decide)]
    rfl
  rw [hbuilt] at hparams
  have hlisted : "Frames" ∈ a.registry.params.names :=
    (mem_names_iff (hasDistinctLayers_of_create hcreate)).2 ⟨.android, by rw [hparams]; decide +kernel⟩
  have hmissing : a.registry.params.getFor "Frames" .ios = .error (.parameterNotRegistered "Frames") := by
    rw [hparams]
    exact getFor_eq_error_iff.2 ⟨rfl, by decide +kernel, by decide +kernel⟩
  refine ⟨a, hcreate, hlisted, hmissing, ?_⟩
  obtain ⟨-, hall⟩ | ⟨name, -, f, -, hfail⟩ := a.registry.params.tableFor_cases .ios
  · obtain ⟨v, hv⟩ := hall _ hlisted
    cases hmissing.symm.trans hv
  · exact ⟨f, hfail⟩

end Params

end BytecodeAudit
