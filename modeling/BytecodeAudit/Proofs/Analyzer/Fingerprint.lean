import BytecodeAudit.Analyzer
import BytecodeAudit.Proofs.Cache.Entries
import BytecodeAudit.Proofs.Matcher.Search
import BytecodeAudit.Proofs.Report.Forms

/-!
# What hashes tell

Hashes have a fixed length, so those that are written one behind another can be told apart
(`keptHash_inj`). The texts of a fingerprint end with a zero byte and their fields are separated by
another control byte, so where no field holds one of the two, a fingerprint tells the fields of
every descriptor that applies, and so what is found (`match?_eq_of_isDelimited`).
-/

namespace BytecodeAudit

open List Descriptor

open Text

/-! ### Separated texts -/

variable {b : UInt8}

lemma append_cons_inj {as as' bs bs' : List UInt8} (has : b ∉ as) (has' : b ∉ as')
    (h : as ++ b :: bs = as' ++ b :: bs') : as = as' ∧ bs = bs' := by
  induction as generalizing as' with
  | nil =>
    cases as' with
    | nil => exact ⟨rfl, (List.cons.inj h).2⟩
    | cons a as' => exact absurd ((List.cons.inj h).1 ▸ mem_cons_self) has'
  | cons a as ih =>
    cases as' with
    | nil => exact absurd ((List.cons.inj h).1 ▸ mem_cons_self) has
    | cons a' as' =>
      obtain ⟨rfl, hrest⟩ := List.cons.inj h
      obtain ⟨rfl, hbs⟩ := ih (fun hb => has (mem_cons_of_mem a hb)) (fun hb => has' (mem_cons_of_mem a hb)) hrest
      exact ⟨rfl, hbs⟩

lemma flatMap_ended_inj {xs ys : List (List UInt8)} (hxs : ∀ x ∈ xs, b ∉ x) (hys : ∀ y ∈ ys, b ∉ y)
    (h : (xs.flatMap fun x => x ++ [b]) = ys.flatMap fun y => y ++ [b]) : xs = ys := by
  induction xs generalizing ys with
  | nil =>
    cases ys with
    | nil => rfl
    | cons y ys => simp at h
  | cons x xs ih =>
    cases ys with
    | nil => simp at h
    | cons y ys =>
      rw [forall_mem_cons] at hxs hys
      simp only [flatMap_cons, append_assoc, singleton_append] at h
      obtain ⟨rfl, hrest⟩ := append_cons_inj hxs.1 hys.1 h
      rw [ih hxs.2 hys.2 hrest]

lemma toBytes_intercalate_inj {sep : String} (hsep : toBytes sep = [b]) {ss ts us vs : List String}
    (hlen : ss.length = ts.length) (hss : ∀ s ∈ ss, b ∉ toBytes s) (hts : ∀ t ∈ ts, b ∉ toBytes t) (hus : us ≠ [])
    (hvs : vs ≠ []) (h : toBytes (sep.intercalate (ss ++ us)) = toBytes (sep.intercalate (ts ++ vs))) :
    ss.map toBytes = ts.map toBytes := by
  have hcons (s : String) {ss : List String} (hne : ss ≠ []) :
      toBytes (sep.intercalate (s :: ss)) = toBytes s ++ b :: toBytes (sep.intercalate ss) := by
    obtain ⟨s', ss, rfl⟩ := exists_cons_of_ne_nil hne
    simp only [String.intercalate_cons_cons, toBytes_append, hsep, append_assoc, singleton_append]
  induction ss generalizing ts with
  | nil =>
    obtain rfl := length_eq_zero_iff.1 hlen.symm
    rfl
  | cons s ss ih =>
    cases ts with
    | nil => cases hlen
    | cons t ts =>
      rw [forall_mem_cons] at hss hts
      rw [cons_append, cons_append, hcons s (append_ne_nil_of_right_ne_nil ss hus),
        hcons t (append_ne_nil_of_right_ne_nil ts hvs)] at h
      obtain ⟨hst, hrest⟩ := append_cons_inj hss.1 hts.1 h
      exact congrArg₂ List.cons hst (ih (Nat.succ.inj hlen) hss.2 hts.2 hrest)

lemma notMem_toBytes_intercalate {sep : String} (hsep : b ∉ toBytes sep) {ss : List String}
    (h : ∀ s ∈ ss, b ∉ toBytes s) : b ∉ toBytes (sep.intercalate ss) := by
  induction ss with
  | nil =>
    rw [String.intercalate_nil, toBytes_of_ascii (by decide)]
    exact not_mem_nil
  | cons s ss ih =>
    rw [forall_mem_cons] at h
    cases ss with
    | nil =>
      rw [String.intercalate_singleton]
      exact h.1
    | cons t ss =>
      rw [String.intercalate_cons_cons, toBytes_append, toBytes_append]
      simp only [mem_append, not_or]
      exact ⟨⟨h.1, hsep⟩, ih h.2⟩

lemma notMem_toBytes_of_lt {s : String} (h : ∀ c ∈ s.toList, b.toNat < c.toNat ∧ c.toNat < 0x80) : b ∉ toBytes s := by
  rw [toBytes_of_ascii fun c hc => (h c hc).2]
  intro hmem
  obtain ⟨c, hc, heq⟩ := mem_map.1 hmem
  have hrange := h c hc
  rw [← UInt8.toNat_inj, UInt8.toNat_ofNat'] at heq
  have heq : c.toNat % 256 = b.toNat := heq
  omega

lemma zero_notMem_toBytes_toString (n : Nat) : 0 ∉ toBytes (toString n) := by
  refine notMem_toBytes_of_lt fun c hc => ?_
  have hdigit := Nat.isDigit_of_mem_toDigits (by decide) (by decide) (Nat.toList_repr ▸ hc)
  have hrange : 48 ≤ c.toNat ∧ c.toNat ≤ 57 := by simpa [Char.isDigit, UInt32.le_iff_toNat_le] using hdigit
  have hzero : (0 : UInt8).toNat = 0 := rfl
  omega

namespace Analyzer.Code

open Digest

/-! ### Hashes of modules -/

def keptHash (bytes : Bytes) (symbolBytes : Option Bytes) (fingerprintBytes : Bytes) : String :=
  Blake3.hash bytes ++ (symbolBytes.map Blake3.hash).getD "" ++ Blake3.hash fingerprintBytes

lemma append_inj_of_length_eq {s s' t t' : String} (hlen : s.length = s'.length) (h : s ++ t = s' ++ t') :
    s = s' ∧ t = t' := by
  rw [← String.toList_inj, String.toList_append, String.toList_append] at h
  obtain ⟨hs, ht⟩ := append_inj h (by rwa [String.length_toList, String.length_toList])
  exact ⟨String.toList_inj.1 hs, String.toList_inj.1 ht⟩

lemma keptHash_inj {S : Set Bytes} (hS : Set.InjOn Blake3.hash S) {bytes bytes' : Bytes}
    {symbolBytes symbolBytes' : Option Bytes} {rest rest' : Bytes} (hbytes : bytes ∈ S) (hbytes' : bytes' ∈ S)
    (hsymbols : ∀ bs, symbolBytes = some bs → bs ∈ S) (hsymbols' : ∀ bs, symbolBytes' = some bs → bs ∈ S)
    (hrest : rest ∈ S) (hrest' : rest' ∈ S)
    (h : keptHash bytes symbolBytes rest = keptHash bytes' symbolBytes' rest') :
    bytes = bytes' ∧ symbolBytes = symbolBytes' ∧ rest = rest' := by
  have hlen : ∀ bs, (Blake3.hash bs).length = 64 := Blake3.length_hash
  have hlength := congrArg String.length h
  simp only [keptHash, String.append_assoc] at h
  obtain ⟨hhash, htail⟩ := append_inj_of_length_eq (by rw [hlen, hlen]) h
  obtain rfl := hS hbytes hbytes' hhash
  -- the lengths tell whether there are symbols
  rcases symbolBytes with _ | bs <;> rcases symbolBytes' with _ | bs'
  · have htail : "" ++ Blake3.hash rest = "" ++ Blake3.hash rest' := htail
    rw [String.empty_append, String.empty_append] at htail
    exact ⟨rfl, rfl, hS hrest hrest' htail⟩
  · simp [keptHash, hlen] at hlength
  · simp [keptHash, hlen] at hlength
  · have htail : Blake3.hash bs ++ Blake3.hash rest = Blake3.hash bs' ++ Blake3.hash rest' := htail
    obtain ⟨hbs, hrests⟩ := append_inj_of_length_eq (by rw [hlen, hlen]) htail
    obtain rfl := hS (hsymbols bs rfl) (hsymbols' bs' rfl) hbs
    exact ⟨rfl, rfl, hS hrest hrest' hrests⟩

/-! ### Fingerprints -/

def fingerprintBytes (r : AuditRequest) : Bytes := (fingerprintParts r).flatMap fun p => toBytes p ++ [0]

lemma fingerprint_eq (r : AuditRequest) : fingerprint r = Blake3.hash (fingerprintBytes r) := rfl

/-- A text without the bytes that fingerprints are structured by. -/
structure IsSeparable (s : String) : Prop where
  isText : IsText s
  zero_notMem : 0 ∉ toBytes s
  separator_notMem : 0x1f ∉ toBytes s

def descriptorFields (d : Descriptor) : List String :=
  [d.id, d.typeName, d.method, d.opcode, d.messageFormat, d.title, d.defaultSeverity.label] ++
    d.platforms.map (·.name) ++ [d.minVersion, d.maxVersion]

/-- Whether the texts that a fingerprint is made of are free of the bytes that it is structured
by. -/
structure IsSeparableRequest (r : AuditRequest) : Prop where
  platform : IsSeparable r.platform.name
  runtimeVersion : IsSeparable r.runtimeVersion
  descriptors : ∀ d ∈ r.catalog.list, ∀ s ∈ descriptorFields d, IsSeparable s

def keyFields (d : Descriptor) : List String :=
  [d.id, d.typeName, d.method, d.opcode, d.messageFormat, d.title, d.defaultSeverity.label,
    String.intercalate "," (d.platforms.map (·.name)), d.minVersion, d.maxVersion]

def criteria (d : Descriptor) : List String := [d.typeName, d.method, d.opcode, d.messageFormat, d.title]

lemma descriptorKey_eq (d : Descriptor) :
    descriptorKey d = String.intercalate "\x1f" ((d.id :: criteria d) ++ (keyFields d).drop 6) := rfl

lemma notMem_keyFields {b : UInt8} (hcomma : b ∉ toBytes ",") {d : Descriptor}
    (h : ∀ s ∈ descriptorFields d, b ∉ toBytes s) : ∀ s ∈ keyFields d, b ∉ toBytes s := by
  have hplatforms : b ∉ toBytes (String.intercalate "," (d.platforms.map (·.name))) :=
    notMem_toBytes_intercalate hcomma fun s hs => h s (by simp only [descriptorFields, mem_append, hs]; tauto)
  simp only [descriptorFields, cons_append, nil_append, forall_mem_cons, forall_mem_append] at h
  simp only [keyFields, forall_mem_cons]
  tauto

lemma sameIssues_of_descriptorKey_eq {d d' : Descriptor} (hd : ∀ s ∈ d.id :: criteria d, IsText s ∧ 0x1f ∉ toBytes s)
    (hd' : ∀ s ∈ d'.id :: criteria d', IsText s ∧ 0x1f ∉ toBytes s)
    (h : toBytes (descriptorKey d) = toBytes (descriptorKey d')) : d.SameIssues d' := by
  have hsep : toBytes "\x1f" = [0x1f] := toBytes_of_ascii (by decide)
  rw [descriptorKey_eq, descriptorKey_eq] at h
  have hlen : (d.id :: criteria d).length = (d'.id :: criteria d').length := rfl
  have hrest (d : Descriptor) : (keyFields d).drop 6 ≠ [] := cons_ne_nil _ _
  have hfields := toBytes_intercalate_inj hsep hlen (fun s hs => (hd s hs).2) (fun s hs => (hd' s hs).2) (hrest d)
    (hrest d') h
  simp only [criteria, map_cons, map_nil, List.cons.injEq, and_true] at hfields
  simp only [criteria, forall_mem_cons] at hd hd'
  obtain ⟨hid, htype, hmethod, hopcode, hformat, htitle⟩ := hfields
  obtain ⟨id, typeName, method, opcode, messageFormat, title, -⟩ := hd
  obtain ⟨id', typeName', method', opcode', messageFormat', title', -⟩ := hd'
  exact {
    id := id.1.eq id'.1 hid
    typeName := typeName.1.eq typeName'.1 htype
    method := method.1.eq method'.1 hmethod
    opcode := opcode.1.eq opcode'.1 hopcode
    messageFormat := messageFormat.1.eq messageFormat'.1 hformat
    title := title.1.eq title'.1 htitle }

def applicable (r : AuditRequest) : List Descriptor :=
  r.catalog.list.filter (·.isApplicable r.platform r.runtimeVersion)

lemma zero_notMem_fingerprintParts {r : AuditRequest} (h : IsSeparableRequest r) :
    ∀ s ∈ fingerprintParts r, 0 ∉ toBytes s := by
  have hcomma : 0 ∉ toBytes "," := by
    rw [toBytes_of_ascii (by decide)]
    decide
  have hsep : 0 ∉ toBytes "\x1f" := by
    rw [toBytes_of_ascii (by decide)]
    decide
  rw [fingerprintParts, forall_mem_append]
  simp only [forall_mem_cons]
  refine ⟨⟨h.platform.zero_notMem, h.runtimeVersion.zero_notMem, zero_notMem_toBytes_toString _, nofun⟩, ?_⟩
  intro s hs
  obtain ⟨d, hd, rfl⟩ := mem_map.1 hs
  have hfields := h.descriptors d (mem_of_mem_filter hd)
  exact notMem_toBytes_intercalate hsep (notMem_keyFields hcomma fun s hs => (hfields s hs).zero_notMem)

/-- Whether the bytes of a fingerprint can be taken apart: no text holds the byte that ends texts,
and no field that decides what is found the byte between fields. -/
structure IsDelimited (r : AuditRequest) : Prop where
  zero_notMem : ∀ s ∈ fingerprintParts r, 0 ∉ toBytes s
  criteria : ∀ d ∈ applicable r, ∀ s ∈ criteria d, IsText s ∧ 0x1f ∉ toBytes s

lemma IsSeparableRequest.isDelimited {r : AuditRequest} (h : IsSeparableRequest r) : IsDelimited r where
  zero_notMem := zero_notMem_fingerprintParts h
  criteria d hd s hs := by
    have hfield := h.descriptors d (mem_of_mem_filter hd) s (by
      simp only [Code.criteria, descriptorFields, mem_cons, mem_append] at hs ⊢
      tauto)
    exact ⟨hfield.isText, hfield.separator_notMem⟩

lemma match?_eq_of_isDelimited {r r' : AuditRequest} (hr : IsDelimited r) (hr' : IsDelimited r')
    (hid : ∀ d ∈ applicable r, IsText d.id ∧ 0x1f ∉ toBytes d.id)
    (hid' : ∀ d ∈ applicable r', IsText d.id ∧ 0x1f ∉ toBytes d.id) (h : fingerprintBytes r = fingerprintBytes r') :
    (matcher r).match? = (matcher r').match? := by
  have hzero : ∀ {r}, IsDelimited r → ∀ bs ∈ (fingerprintParts r).map toBytes, 0 ∉ bs := by
    intro r hr bs hbs
    obtain ⟨s, hs, rfl⟩ := mem_map.1 hbs
    exact hr.zero_notMem s hs
  have hparts : (fingerprintParts r).map toBytes = (fingerprintParts r').map toBytes := by
    refine flatMap_ended_inj (hzero hr) (hzero hr') ?_
    rw [flatMap_map, flatMap_map]
    exact h
  simp only [fingerprintParts, map_cons, cons_append, nil_append, List.cons.injEq, map_map] at hparts
  have hkeys := hparts.2.2.2
  rw [← forall₂_eq_eq_eq, forall₂_map_left_iff, forall₂_map_right_iff, forall₂_iff_zip] at hkeys
  have hsame : List.Forall₂ SameIssues (applicable r) (applicable r') := by
    refine forall₂_iff_zip.2 ⟨hkeys.1, fun {d d'} hmem => ?_⟩
    obtain ⟨hd, hd'⟩ := of_mem_zip hmem
    exact sameIssues_of_descriptorKey_eq (forall_mem_cons.2 ⟨hid d hd, hr.criteria d hd⟩)
      (forall_mem_cons.2 ⟨hid' d' hd', hr'.criteria d' hd'⟩) (hkeys.2 hmem)
  have halike : (matcher r).Alike SameIssues (matcher r') :=
    Matcher.alike_ofCatalog (fun _ _ hd => hd.toSameCriteria) hsame
  exact funext fun i => halike.match?_eq (fun _ _ hd => hd) i

lemma match?_eq_of_fingerprintBytes_eq {r r' : AuditRequest} (hr : IsSeparableRequest r)
    (hr' : IsSeparableRequest r') (h : fingerprintBytes r = fingerprintBytes r') :
    (matcher r).match? = (matcher r').match? := by
  have hid : ∀ {r}, IsSeparableRequest r → ∀ d ∈ applicable r, IsText d.id ∧ 0x1f ∉ toBytes d.id := by
    intro r hr d hd
    have hfield := hr.descriptors d (mem_of_mem_filter hd) d.id mem_cons_self
    exact ⟨hfield.isText, hfield.separator_notMem⟩
  exact match?_eq_of_isDelimited hr.isDelimited hr'.isDelimited (hid hr) (hid hr') h

/-! ### Fingerprints of registered descriptors -/

lemma isText_of_all {b : UInt8} {ss : List String}
    (h : (ss.all fun s => s.toList.all fun c => b.toNat < c.toNat && c.toNat < 0x80)) :
    ∀ s ∈ ss, IsText s ∧ b ∉ toBytes s := by
  simp only [all_eq_true, Bool.and_eq_true, decide_eq_true_eq] at h
  exact fun s hs => ⟨IsAscii.isText fun c hc => (h s hs c hc).2, notMem_toBytes_of_lt (h s hs)⟩

variable {r r' : AuditRequest} {typeName method recommendation : String}

lemma isText_id_of_isRegistered (h : r.catalog.IsRegistered) {d : Descriptor} (hd : d ∈ applicable r) :
    IsText d.id ∧ 0x1f ∉ toBytes d.id := by
  have hid := isValidId_of_validate (h.areOrdered.validate_eq d (mem_of_mem_filter hd))
  refine ⟨(isAscii_of_isValidId hid).isText, notMem_toBytes_of_lt fun c hc => ?_⟩
  obtain ⟨hlow, hhigh⟩ := range_of_isValidId hid c hc
  exact ⟨Nat.lt_of_lt_of_le (by decide) hlow, hhigh⟩

/-- Fingerprints that can be taken apart tell what is found: with the same bytes, the same is found
in every instruction. -/
theorem found_eq_of_delimited_fingerprint (hc : r.catalog.IsRegistered) (hc' : r'.catalog.IsRegistered)
    (hr : IsDelimited r) (hr' : IsDelimited r') (h : fingerprintBytes r = fingerprintBytes r')
    (i : ScannedInstruction) : (matcher r).match? i = (matcher r').match? i :=
  congrFun (match?_eq_of_isDelimited hr hr' (fun _ hd => isText_id_of_isRegistered hc hd)
    (fun _ hd => isText_id_of_isRegistered hc' hd) h) i

def memberRequest (typeName method recommendation : String) : AuditRequest where
  catalog := ⟨[{ descriptor := { id := "LIB0001", title := "Slow call", typeName, method, recommendation } }]⟩

lemma isRegistered_memberRequest (h : method ≠ "") :
    (memberRequest typeName method recommendation).catalog.IsRegistered := by
  have hid : isValidId "LIB0001" := by decide
  have htitle : "Slow call" ≠ "" := by decide
  have hordered : Catalog.AreOrdered (memberRequest typeName method recommendation).catalog.list :=
    ⟨pairwise_singleton .., forall_mem_singleton.2
      (validate_eq_ok_iff.2 ⟨hid, htitle, ⟨_, Severity.parse_default⟩, fun hempty => absurd hempty h⟩)⟩
  exact (Catalog.IsRegistered.empty.registerAll (Catalog.registerAll_list hordered)).1

lemma fingerprintParts_memberRequest (htype : typeName ≠ "")
    (hmethod : method ≠ "") (hwildcard : method ≠ "*") :
    fingerprintParts (memberRequest typeName method recommendation) =
      [Platform.default.name, "", "1", String.intercalate "\x1f" ["LIB0001", typeName, method, "", "", "Slow call",
        Severity.default.label, "", "", ""]] := by
  have hsize : (matcher (memberRequest typeName method recommendation)).size = 1 := by
    simp [matcher, memberRequest, Matcher.ofCatalog, Catalog.list, isApplicable, Matcher.insert,
      isOpcodeOnly, isWildcard, wildcard, htype, hmethod, hwildcard, Matcher.size,
      Std.HashMap.size_insert, Std.HashMap.fold_eq_foldl_toList]
  rw [fingerprintParts, hsize]
  rfl

theorem found_eq_of_delimited_fingerprint_advice :
    let r := memberRequest "N.C" "Size" "Avoid it."
    let r' := memberRequest "N.C" "Size" "Cache it."
    r.catalog.IsRegistered ∧ IsDelimited r ∧ fingerprintBytes r = fingerprintBytes r' ∧
      (matcher r).match? (Matcher.useOf "Size") = (matcher r').match? (Matcher.useOf "Size") := by
  have hparts (recommendation : String) : fingerprintParts (memberRequest "N.C" "Size" recommendation) = _ :=
    fingerprintParts_memberRequest (by decide) (by decide) (by decide)
  have hdelimited (recommendation : String) : IsDelimited (memberRequest "N.C" "Size" recommendation) := by
    have hcriteria : ∀ s ∈ ["N.C", "Size", "", "", "Slow call"], IsText s ∧ 0x1f ∉ toBytes s :=
      isText_of_all (by decide)
    refine ⟨?_, List.forall_mem_singleton.2 hcriteria⟩
    rw [hparts]
    exact fun s hs => (isText_of_all (by decide) s hs).2
  have hregistered (recommendation : String) : (memberRequest "N.C" "Size" recommendation).catalog.IsRegistered :=
    isRegistered_memberRequest (by decide)
  have hbytes : fingerprintBytes (memberRequest "N.C" "Size" "Avoid it.") =
      fingerprintBytes (memberRequest "N.C" "Size" "Cache it.") := by
    rw [fingerprintBytes, fingerprintBytes, hparts, hparts]
  exact ⟨hregistered _, hdelimited _, hbytes, found_eq_of_delimited_fingerprint (hregistered _) (hregistered _)
    (hdelimited _) (hdelimited _) hbytes _⟩

/-- Requests with the separator in different fields have one fingerprint, but do not find the
same. -/
theorem exists_colliding_fingerprints :
    ∃ r r' : AuditRequest, r.catalog.IsRegistered ∧ r'.catalog.IsRegistered ∧
      fingerprintBytes r = fingerprintBytes r' ∧ ∃ i, (matcher r).match? i ≠ (matcher r').match? i := by
  have hr : (memberRequest "N.C\x1fSize" "Get" "").catalog.IsRegistered := isRegistered_memberRequest (by decide)
  have hr' : (memberRequest "N.C" "Size\x1fGet" "").catalog.IsRegistered := isRegistered_memberRequest (by decide)
  refine ⟨_, _, hr, hr', ?_, Matcher.useOf "Size\x1fGet", fun heq => ?_⟩
  · rw [fingerprintBytes, fingerprintBytes, fingerprintParts_memberRequest (by decide) (by decide) (by decide),
      fingerprintParts_memberRequest (by decide) (by decide) (by decide)]
    rfl
  · rw [matcher, matcher, (Matcher.match?_ofCatalog hr ..).1, (Matcher.match?_ofCatalog hr' ..).1] at heq
    exact absurd (congrArg Option.isSome heq) (by decide +kernel)

end Analyzer.Code

end BytecodeAudit
