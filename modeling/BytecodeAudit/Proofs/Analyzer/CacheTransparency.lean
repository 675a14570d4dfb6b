import BytecodeAudit.Proofs.Analyzer.CodeAudit
import BytecodeAudit.Proofs.Analyzer.Fingerprint
import BytecodeAudit.Proofs.Scan.FindingsRoundTrip

/-!
# Audits with a cache

A cache never shows: over every history of audits that keep their findings in one directory, each
audit sends the issues that it would send without a cache.

The invariant is `IsFresh`: an entry holds the findings of some bytes of a module and of symbols and
of some request, under their hash. Where hashes tell the inputs that occur, an entry with the hash
of a module holds its findings (`findings_of_isFresh`).
-/

namespace BytecodeAudit

namespace Analyzer.Code

open List Option

open Digest Pack

variable {r : AuditRequest} {S : Set Bytes} {directory : String} {d : Disk} {content : Module} (depth : Int)

/-! ### Entries that hold what they are found under -/

def scannedIn (r : AuditRequest) (content : Module) : Findings :=
  (Findings.ofInstructions (matcher r) content.instructions).1

/-- Whether an entry holds the findings of a module, made from bytes of a set, under the hash of the
bytes. -/
def IsFresh (S : Set Bytes) (e : CacheEntry) : Prop :=
  ∃ (r : AuditRequest) (bytes : Bytes) (symbolBytes : Option Bytes) (content : Module),
    IsSeparableRequest r ∧ fingerprintBytes r ∈ S ∧ bytes ∈ S ∧ (∀ bs, symbolBytes = some bs → bs ∈ S) ∧
      LoadedModule.contentOf bytes symbolBytes = some content ∧
      e.hash = keptHash bytes symbolBytes (fingerprintBytes r) ∧
      ∀ f, Findings.decode? e.data = some f → f = scannedIn r content

lemma findings_of_isFresh (hS : Set.InjOn Blake3.hash S) {e : CacheEntry} (he : IsFresh S e)
    (hr : IsSeparableRequest r) {bytes : Bytes} {symbolBytes : Option Bytes} (hfingerprint : fingerprintBytes r ∈ S)
    (hbytes : bytes ∈ S) (hsymbols : ∀ bs, symbolBytes = some bs → bs ∈ S)
    (hcontent : LoadedModule.contentOf bytes symbolBytes = some content)
    (hhash : e.hash = keptHash bytes symbolBytes (fingerprintBytes r)) {f : Findings}
    (hf : Findings.decode? e.data = some f) : f = scannedIn r content := by
  obtain ⟨r', bytes', symbolBytes', content', hr', hfp', hbytes', hsymbols', hcontent', hhash', hdata⟩ := he
  obtain ⟨rfl, rfl, hprint⟩ :=
    keptHash_inj hS hbytes' hbytes hsymbols' hsymbols hfp' hfingerprint (hhash'.symm.trans hhash)
  obtain rfl : content' = content := some.inj (hcontent'.symm.trans hcontent)
  have hmatch := match?_eq_of_fingerprintBytes_eq hr' hr hprint
  rw [hdata f hf, scannedIn, scannedIn, Findings.ofInstructions, Findings.ofInstructions, hmatch]

lemma isShortText_keptHash (bytes : Bytes) (symbolBytes : Option Bytes) (rest : Bytes) :
    IsShortText (keptHash bytes symbolBytes rest) := by
  have hsymbols : Text.IsHex ((symbolBytes.map Blake3.hash).getD "") ∧
      ((symbolBytes.map Blake3.hash).getD "").length ≤ 64 := by
    cases symbolBytes with
    | none => exact ⟨nofun, by decide⟩
    | some bs => exact ⟨Blake3.isHex_hash bs, Nat.le_of_eq (Blake3.length_hash bs)⟩
  refine ⟨(((Blake3.isHex_hash bytes).append hsymbols.1).append (Blake3.isHex_hash rest)).isAscii.isText, ?_⟩
  have hle := Text.length_toBytes_le (keptHash bytes symbolBytes rest)
  have hlength : (keptHash bytes symbolBytes rest).toList.length ≤ 192 := by
    rw [String.length_toList, keptHash, String.length_append, String.length_append, Blake3.length_hash,
      Blake3.length_hash]
    omega
  omega

lemma isFresh_of_decode? (hr : IsSeparableRequest r) {bytes : Bytes} {symbolBytes : Option Bytes}
    (hfingerprint : fingerprintBytes r ∈ S) (hbytes : bytes ∈ S) (hsymbols : ∀ bs, symbolBytes = some bs → bs ∈ S)
    (hcontent : LoadedModule.contentOf bytes symbolBytes = some content)
    (hsizes : (scannedIn r content).toPack.HasSizes) {now : Instant} {e : CacheEntry}
    (he : CacheEntry.decode? (CacheEntry.encode {
      hash := keptHash bytes symbolBytes (fingerprintBytes r), time := now,
      data := (scannedIn r content).encode }) = some e) : IsFresh S e := by
  have htexts := LoadedModule.hasTexts_of_contentOf hcontent
  have hids : ∀ d ∈ r.catalog.list, Text.IsText d.id := fun d hd =>
    (hr.descriptors d hd d.id mem_cons_self).isText
  have hkeepable : (scannedIn r content).IsKeepable :=
    Findings.isKeepable_ofInstructions (Matcher.hasTexts_ofCatalog hids ..) fun i hi => htexts.of_mem_instructions hi
  obtain ⟨e', he', hhash, hdata⟩ :=
    CacheEntry.exists_decode?_encode (e := {
      hash := keptHash bytes symbolBytes (fingerprintBytes r), time := now,
      data := (scannedIn r content).encode }) (isShortText_keptHash ..)
  obtain rfl : e' = e := some.inj (he'.symm.trans he)
  exact ⟨r, bytes, symbolBytes, content, hr, hfingerprint, hbytes, hsymbols, hcontent, hhash,
    fun f hf => Findings.eq_of_decode?_prefix hkeepable hsizes hdata hf⟩

/-! ### A look at one module -/

def auditedFiles (r : AuditRequest) : List String := r.modulePaths.flatMap fun path => [path, Module.symbolsPath path]

/-- The inputs that an audit hashes: the fingerprint of its request and the files that it reads. -/
def hashedBy (r : AuditRequest) (d : Disk) : Set Bytes :=
  {bs | bs = fingerprintBytes r ∨ ∃ path ∈ auditedFiles r, (d.read path).toOption = some bs}

lemma content_of_mem_loadable {paths : List String} {m : LoadedModule} (h : m ∈ loadable d paths) :
    m.path ∈ paths ∧ ∃ bytes, (d.read m.path).toOption = some bytes ∧
      LoadedModule.contentOf bytes (d.read (Module.symbolsPath m.path)).toOption = some m.content := by
  obtain ⟨path, hpath, hload⟩ := mem_filterMap.1 h
  have hload : LoadedModule.load d path = .ok m := by
    cases hresult : LoadedModule.load d path with
    | error f => simp [hresult, Except.toOption] at hload
    | ok m' => simpa [hresult, Except.toOption] using hload
  obtain ⟨rfl, hcontent⟩ := LoadedModule.content_of_load hload
  exact ⟨hpath, hcontent⟩

lemma mem_auditedFiles {path : String} (h : path ∈ r.modulePaths) :
    path ∈ auditedFiles r ∧ Module.symbolsPath path ∈ auditedFiles r :=
  ⟨mem_flatMap.2 ⟨path, h, mem_cons_self⟩, mem_flatMap.2 ⟨path, h, mem_cons_of_mem _ mem_cons_self⟩⟩

lemma moduleHash?_eq (d : Disk) (path : String) (r : AuditRequest) :
    (moduleHash? d path).map (· ++ fingerprint r) = (d.read path).toOption.map fun bytes =>
      keptHash bytes (d.read (Module.symbolsPath path)).toOption (fingerprintBytes r) := by
  rw [moduleHash?, fileHash?, fileHash?, fingerprint_eq]
  cases (d.read path).toOption <;> rfl

/-- Whether an audit can be made with a cache in a directory: the texts of its request keep to the
fields of a fingerprint, the files that it reads are no entries of the cache, and no text or list
that it finds is too long for a header. -/
structure CanAudit (directory : String) (r : AuditRequest) (d : Disk) : Prop where
  directory_eq : r.cache.directory = directory
  isSeparable : IsSeparableRequest r
  isApart : ∀ path ∈ auditedFiles r, r.cache.IsApart d path
  hasSizes : ∀ m ∈ loadable d r.modulePaths, (scanned r m).toPack.HasSizes

section Examine

variable {S : Set Bytes} {directory : String} {r : AuditRequest} {d₀ d : Disk} {m : LoadedModule}

/-- What holds while an audit runs: nothing but entries has changed, and every entry is fresh. -/
structure IsRunning (S : Set Bytes) (r : AuditRequest) (d₀ d : Disk) : Prop where
  touches : r.cache.Touches d₀ d
  entries : r.cache.AllEntries (IsFresh S) d

lemma IsRunning.of_get (h : IsRunning S r d₀ d) (now : Instant) (key hash : String) :
    IsRunning S r d₀ (r.cache.get now key hash d).2 :=
  ⟨h.touches.trans (r.cache.touches_get h.touches.isTree now key hash), h.entries.of_get h.touches.isTree now key hash⟩

lemma IsRunning.of_scanAndKeep (h : IsRunning S r d₀ d) {hash : Option String}
    (hfresh : ∀ hash', hash = some hash' → ∀ e, CacheEntry.decode? (CacheEntry.encode {
      hash := hash', time := r.now, data := (scanned r m).encode }) = some e → IsFresh S e) :
    IsRunning S r d₀ (scanAndKeep (scanning r) r hash m d).disk := by
  obtain hsame | ⟨hash', rfl, hset⟩ := scanAndKeep_cases r hash m d
  · rw [hsame]
    exact h
  · exact ⟨h.touches.trans (Cache.touches_set h.touches.isTree hset),
      h.entries.of_set h.touches.isTree hset (hfresh hash' rfl)⟩

lemma examine_of_isRunning (hS : Set.InjOn Blake3.hash S) (hsub : hashedBy r d₀ ⊆ S)
    (hr : CanAudit directory r d₀) (hm : m ∈ loadable d₀ r.modulePaths) (h : IsRunning S r d₀ d) :
    (examine (scanning r) r m d).findings = some (scanned r m) ∧
      IsRunning S r d₀ (examine (scanning r) r m d).disk := by
  obtain ⟨hpath, bytes, hbytes, hcontent⟩ := content_of_mem_loadable hm
  obtain ⟨hmodule, hsymbols⟩ := mem_auditedFiles hpath
  have hkept : (moduleHash? d m.path).map (· ++ fingerprint r) = some
      (keptHash bytes (d₀.read (Module.symbolsPath m.path)).toOption (fingerprintBytes r)) := by
    rw [moduleHash?_eq, h.touches.read_eq _ (hr.isApart _ hmodule), h.touches.read_eq _ (hr.isApart _ hsymbols),
      hbytes, map_some]
  have hbytesS : bytes ∈ S := hsub (.inr ⟨_, hmodule, hbytes⟩)
  have hsymbolsS : ∀ bs, (d₀.read (Module.symbolsPath m.path)).toOption = some bs → bs ∈ S := fun bs hbs =>
    hsub (.inr ⟨_, hsymbols, hbs⟩)
  have hfingerprint : fingerprintBytes r ∈ S := hsub (.inl rfl)
  rw [examine]
  split
  · exact ⟨findings_scanAndKeep .., h.of_scanAndKeep fun hash hhash => absurd hhash.symm (some_ne_none hash)⟩
  rw [hkept]
  dsimp only
  have hget := h.of_get r.now (cacheKey m.path)
    (keptHash bytes (d₀.read (Module.symbolsPath m.path)).toOption (fingerprintBytes r))
  split
  · rename_i findings hfindings
    refine ⟨?_, hget⟩
    -- a hit: the entry is fresh, so it holds the findings of this module
    obtain ⟨data, hdata, hdecode⟩ := bind_eq_some_iff.1 hfindings
    obtain ⟨e, he, hhash, rfl⟩ := Cache.entry_of_get hdata
    exact congrArg some
      (findings_of_isFresh hS (h.entries _ e he) hr.isSeparable hfingerprint hbytesS hsymbolsS hcontent hhash hdecode)
  · refine ⟨findings_scanAndKeep .., hget.of_scanAndKeep fun hash hhash e he => ?_⟩
    cases hhash
    exact isFresh_of_decode? hr.isSeparable hfingerprint hbytesS hsymbolsS hcontent (hr.hasSizes m hm) he

end Examine

/-! ### One audit -/

lemma IsCutAt.unique {looks count k k' : Nat} (h : IsCutAt r looks count k) (h' : IsCutAt r looks count k') :
    k = k' := by
  rcases Nat.lt_trichotomy k k' with hlt | heq | hlt
  · cases (h'.before k hlt).symm.trans (h.at_cut (Nat.lt_of_lt_of_le hlt h'.le))
  · exact heq
  · cases (h.before k' hlt).symm.trans (h'.at_cut (Nat.lt_of_lt_of_le hlt h.le))

lemma audit_of_isRunning (hS : Set.InjOn Blake3.hash S) (hsub : hashedBy r d ⊆ S) (hr : CanAudit directory r d)
    (h : IsRunning S r d d) :
    (audit r d).issues = (audit { r with cache := .disabled } d).issues ∧ IsRunning S r d (audit r d).disk := by
  rcases hopen : Scan.openUnlessCanceled d r.modulePaths (r.isCanceled 0) with f | opened
  · rw [audit, tryAudit, hopen, audit, tryAudit, hopen]
    exact ⟨rfl, h⟩
  · have hmodules : opened.modules = loadable d r.modulePaths := by
      rw [Scan.openUnlessCanceled] at hopen
      split at hopen
      · cases hopen
      · rw [← Except.ok.inj hopen, modules_openAll]
    obtain ⟨k, hcut, hfindings, -, hdisk⟩ := survey_eq (IsRunning S r d) (loadable d r.modulePaths)
      (fun m hm d' hd' => examine_of_isRunning hS hsub hr hm hd') 1 h
    -- without a cache nothing is asked of the disk
    obtain ⟨k', hcut', hfindings', -, -⟩ := survey_eq (r := { r with cache := .disabled }) (fun _ => True)
      (loadable d r.modulePaths) (d := d) (fun m _ d' _ => ⟨examine_of_disabled rfl m d', trivial⟩) 1 trivial
    obtain rfl : k' = k := IsCutAt.unique (r := r) ⟨hcut'.le, hcut'.before, hcut'.at_cut⟩ hcut
    constructor
    · rw [issues_audit hopen, issues_audit (r := { r with cache := .disabled }) hopen, hmodules, hfindings, hfindings']
      rfl
    · rw [audit, tryAudit, hopen]
      rw [← hmodules] at hdisk
      exact hdisk

/-! ### Histories -/

/-- What can happen to a disk: an audit, a change from outside, or a call of a cache. -/
inductive Event where
  | audit (r : AuditRequest)
  | change (d : Disk)
  | invalidate (c : Cache) (key : String)
  | clear (c : Cache)

def Event.apply : Event → Disk → Disk
  | .audit r, d => (Code.audit r d).disk
  | .change d, _ => d
  | .invalidate c key, d => (c.invalidate key d).toOption.getD d
  | .clear c, d => c.clear d

/-- Whether an event can happen to a disk with a cache in a directory. A change from outside leaves
a tree of files and brings no new entries; the calls may be those of any cache that does not hold
the working directory. -/
def Event.IsAllowed (directory : String) (d : Disk) : Event → Prop
  | .audit r => CanAudit directory r d
  | .change d' => d'.IsTree ∧ ∀ key e, Cache.entry? { directory } key d' = some e →
      ∃ key', Cache.entry? { directory } key' d = some e
  | .invalidate c key => (apply (.invalidate c key) d).at? d.cwd = some .directory
  | .clear c => (apply (.clear c) d).at? d.cwd = some .directory

def Event.hashed (d : Disk) : Event → Set Bytes
  | .audit r => hashedBy r d
  | _ => ∅

def diskAfter (es : List Event) (d : Disk) : Disk := es.foldl (fun d e => e.apply d) d

def IsHistory (directory : String) : List Event → Disk → Prop
  | [], _ => True
  | e :: es, d => e.IsAllowed directory d ∧ IsHistory directory es (e.apply d)

def hashedIn : List Event → Disk → Set Bytes
  | [], _ => ∅
  | e :: es, d => e.hashed d ∪ hashedIn es (e.apply d)

structure IsSound (S : Set Bytes) (directory : String) (d : Disk) : Prop where
  isTree : d.IsTree
  entries : Cache.AllEntries { directory } (IsFresh S) d

lemma IsSound.isRunning (h : IsSound S directory d) (hr : r.cache.directory = directory) : IsRunning S r d d :=
  ⟨Cache.touches_refl r.cache h.isTree, h.entries.congr hr⟩

lemma IsSound.of_isPart {d' : Disk} (h : IsSound S directory d) (hpart : d'.IsPart d)
    (hcwd : d'.at? d.cwd = some .directory) : IsSound S directory d' :=
  ⟨hpart.isTree h.isTree (hpart.cwd ▸ hcwd), h.entries.of_isPart h.isTree hpart⟩

lemma IsSound.apply (hS : Set.InjOn Blake3.hash S) {e : Event} (hsub : e.hashed d ⊆ S) (he : e.IsAllowed directory d)
    (h : IsSound S directory d) : IsSound S directory (e.apply d) := by
  cases e with
  | audit r =>
    have hrunning := (audit_of_isRunning hS hsub he (h.isRunning he.directory_eq)).2
    exact ⟨hrunning.touches.isTree, hrunning.entries.congr he.directory_eq.symm⟩
  | change d' =>
    refine ⟨he.1, fun key e hkey => ?_⟩
    obtain ⟨key', hkey'⟩ := he.2 key e hkey
    exact h.entries key' e hkey'
  | invalidate c key => exact h.of_isPart (c.isPart_invalidate key d) he
  | clear c => exact h.of_isPart (c.isPart_clear d) he

lemma IsSound.diskAfter {S : Set Bytes} (hS : Set.InjOn Blake3.hash S) {directory : String} {d : Disk}
    {es : List Event} {e : Event} (hsub : hashedIn (es ++ [e]) d ⊆ S) (hes : IsHistory directory (es ++ [e]) d)
    (h : IsSound S directory d) :
    IsSound S directory (diskAfter es d) ∧ e.IsAllowed directory (diskAfter es d) ∧ e.hashed (diskAfter es d) ⊆ S := by
  induction es generalizing d with
  | nil => exact ⟨h, hes.1, Set.subset_union_left.trans hsub⟩
  | cons e' es ih =>
    have hfirst : e'.hashed d ⊆ S := Set.subset_union_left.trans hsub
    exact ih (Set.subset_union_right.trans hsub) hes.2 (h.apply hS hfirst hes.1)

/-- A cache never shows. Whatever happened to a disk that held no entries at first, an audit sends
the issues that it would send without a cache, as long as the hash function tells the inputs that
occurred. -/
theorem issues_audit_eq_disabled {directory : String} {d : Disk} (hd : d.IsTree)
    (hempty : ∀ key, Cache.entry? { directory } key d = none) {es : List Event} {r : AuditRequest}
    (hes : IsHistory directory (es ++ [.audit r]) d)
    (hhash : Set.InjOn Blake3.hash (hashedIn (es ++ [.audit r]) d)) :
    (audit r (diskAfter es d)).issues = (audit { r with cache := .disabled } (diskAfter es d)).issues := by
  have hstart : IsSound (hashedIn (es ++ [.audit r]) d) directory d := by
    refine ⟨hd, fun key e he => ?_⟩
    rw [hempty key] at he
    cases he
  obtain ⟨hsound, hcan, hsub⟩ := hstart.diskAfter hhash Set.Subset.rfl hes
  exact (audit_of_isRunning hhash hsub hcan (hsound.isRunning hcan.directory_eq)).1

/-! ### A cache that is used -/

def selfCallBytes : Bytes :=
  -- format, name, version, runtime version, build
  [0x97, 1, 0xa3, 0x6c, 0x69, 0x62, 0xa0, 0xa0, 0xc2] ++
    -- one type with one method
    [0x91, 0x96, 0xa0, 0xa1, 0x54, 0xc2, 0xc0, 0x91, 0x96, 7, 0xa3, 0x52, 0x75, 0x6e, 0xc0, 0xa0, 0xc0] ++
    -- one instruction, the call of the method
    [0x91, 0x96, 0, 0xa4, 0x63, 0x61, 0x6c, 0x6c, 0x94, 0x96, 0xa0, 0xa1, 0x54, 0xa0, 0xc2, 0xc0, 0xc0] ++
    [0xa3, 0x52, 0x75, 0x6e, 0xc0, 0xa0, 0xc0, 0xa0, 0, 0xc0] ++
    -- symbols with one point
    [0x92, 0xa0, 0x81, 7, 0x91, 0x95, 0, 0xa4, 0x61, 0x2e, 0x63, 0x73, 3, 0, 0xc2]

/-- A request with a descriptor that matches the call. -/
def depthRequest (depth : Int) : AuditRequest :=
  { memberRequest "T" "Run" "" with
    modulePaths := ["lib.bcm", "gone.bcm"]
    callDepth := depth
    cache := { directory := "cache", isEnabled := true } }

def warmDisk : Disk where
  nodes := [(["cache"], .directory), (["lib.bcm"], .file selfCallBytes)]

lemma isTree_warmDisk : warmDisk.IsTree where
  cwd := rfl
  parent p n hp := by
    rcases p with _ | ⟨e, _ | ⟨e', p⟩⟩
    · rfl
    · rfl
    · simp [Disk.at?, warmDisk, lookup_cons] at hp

lemma place_entryPath_warmDisk (key : String) :
    (warmDisk.place (Cache.entryPath { directory := "cache" } key)).toOption = some ["cache", Cache.entryName key] := by
  have hcache : warmDisk.place "cache" = .ok ["cache"] := rfl
  exact congrArg Except.toOption (isTree_warmDisk.place_join hcache rfl (Cache.isName_entryName key))

lemma entry?_warmDisk (key : String) : Cache.entry? { directory := "cache" } key warmDisk = none := by
  unfold Cache.entry?
  rw [bind_eq_none_iff]
  intro bs hbs
  obtain ⟨p, hp, hfile⟩ := Disk.toOption_read_eq_some_iff.1 hbs
  rw [place_entryPath_warmDisk] at hp
  cases hp
  cases hfile

lemma files_warmDisk : ∀ path ∈ auditedFiles (depthRequest depth), (∃ e, (warmDisk.place path).toOption = some [e]) ∧
      (warmDisk.read path).toOption = if path = "lib.bcm" then some selfCallBytes else none := by
  have hfiles : auditedFiles (depthRequest 0) = ["lib.bcm", "lib.sym", "gone.bcm", "gone.sym"] := by decide +kernel
  change ∀ path ∈ auditedFiles (depthRequest 0), _
  rw [hfiles]
  simp only [forall_mem_cons]
  exact ⟨⟨⟨_, rfl⟩, rfl⟩, ⟨⟨_, rfl⟩, rfl⟩, ⟨⟨_, rfl⟩, rfl⟩, ⟨⟨_, rfl⟩, rfl⟩, nofun⟩

lemma isApart_warmDisk {path : String} (h : path ∈ auditedFiles (depthRequest depth)) :
    (depthRequest depth).cache.IsApart warmDisk path := by
  intro key p hp hpath
  obtain ⟨e, he⟩ := (files_warmDisk depth path h).1
  have hentry : some p = some ["cache", Cache.entryName key] := hp.symm.trans (place_entryPath_warmDisk key)
  have hlength := congrArg (Option.map List.length) (he.symm.trans (hpath.trans hentry))
  cases hlength

lemma match?_matcher_depthRequest (i : ScannedInstruction) : (matcher (depthRequest depth)).match? i =
    (memberRequest "T" "Run" "").catalog.search? .default "" .code i :=
  Matcher.match?_eq_search? (isRegistered_memberRequest (by decide)) ..

lemma hasSizes_scannedIn (h : LoadedModule.contentOf selfCallBytes none = some content) :
    (scannedIn (depthRequest depth) content).issues.length = 1 ∧
      (scannedIn (depthRequest depth) content).toPack.HasSizes := by
  have hall : ∀ m ∈ LoadedModule.contentOf selfCallBytes none,
      let issues := (m.instructions.filterMap ((memberRequest "T" "Run" "").catalog.search? .default "" .code)).map (·.issue)
      let edges := (m.instructions.filterMap ScannedInstruction.edge?).eraseDupsBy CallEdge.sameCall
      issues.length = 1 ∧ (Findings.toPack { issues, edges }).HasSizes := by
    decide +kernel
  rw [scannedIn, Findings.ofInstructions, CallGraph.edges_ofList, funext (match?_matcher_depthRequest depth)]
  exact hall content h

lemma isSeparableRequest_depthRequest : IsSeparableRequest (depthRequest depth) := by
  have hseparable {ss : List String} (h : ss.all fun s => s.toList.all fun c => 0x1f < c.toNat && c.toNat < 0x80)
      (h' : ss.all fun s => s.toList.all fun c => 0 < c.toNat && c.toNat < 0x80) : ∀ s ∈ ss, IsSeparable s := by
    intro s hs
    obtain ⟨htext, hseparator⟩ := isText_of_all (b := 0x1f) h s hs
    exact ⟨htext, (isText_of_all (b := 0) h' s hs).2, hseparator⟩
  have hempty : ∀ s ∈ [""], IsSeparable s := hseparable rfl rfl
  refine ⟨hempty "" (.head _), hempty "" (.head _), forall_mem_singleton.2 (hseparable (by decide +kernel) (by decide +kernel))⟩

lemma canAudit_depthRequest {depth depth' : Int} (h : (depthRequest depth').cache.Touches warmDisk d) :
    CanAudit "cache" (depthRequest depth) d where
  directory_eq := rfl
  isSeparable := isSeparableRequest_depthRequest depth
  isApart path hpath := h.isApart (isApart_warmDisk depth hpath)
  hasSizes m hm := by
    obtain ⟨hpath, bytes, hbytes, hcontent⟩ := content_of_mem_loadable hm
    obtain ⟨hmodule, hsymbols⟩ := mem_auditedFiles hpath
    rw [h.read_eq _ (isApart_warmDisk depth hmodule), (files_warmDisk depth _ hmodule).2] at hbytes
    obtain ⟨hlib, hbytes⟩ := ite_none_right_eq_some.1 hbytes
    cases hbytes
    rw [h.read_eq _ (isApart_warmDisk depth hsymbols), (files_warmDisk depth _ hsymbols).2, hlib,
      if_neg (by decide +kernel)] at hcontent
    exact (hasSizes_scannedIn depth hcontent).2

def slowFingerprint : Bytes :=
  ["", "", "1", String.intercalate "\x1f" ["LIB0001", "T", "Run", "", "", "Slow call", Severity.default.label, "", "",
    ""]].flatMap fun p => Text.toBytes p ++ [0]

lemma fingerprintBytes_depthRequest : fingerprintBytes (depthRequest depth) = slowFingerprint := by
  change fingerprintBytes (memberRequest "T" "Run" "") = _
  rw [fingerprintBytes, fingerprintParts_memberRequest (by decide) (by decide) (by decide)]
  rfl

lemma injOn_hash_selfCall : Set.InjOn Blake3.hash {slowFingerprint, selfCallBytes} := by
  have hne : Blake3.hash slowFingerprint ≠ Blake3.hash selfCallBytes := by decide +kernel
  rintro bs (rfl | rfl) bs' (rfl | rfl) heq
  · rfl
  · exact absurd heq hne
  · exact absurd heq.symm hne
  · rfl

lemma hashedBy_depthRequest {depth depth' : Int} (h : (depthRequest depth').cache.Touches warmDisk d) :
    hashedBy (depthRequest depth) d ⊆ {slowFingerprint, selfCallBytes} := by
  rintro bs (rfl | ⟨path, hpath, hread⟩)
  · exact .inl (fingerprintBytes_depthRequest depth)
  · rw [h.read_eq _ (isApart_warmDisk depth hpath), (files_warmDisk depth _ hpath).2] at hread
    exact .inr (some.inj (ite_none_right_eq_some.1 hread).2).symm

theorem issues_audit_eq_disabled_depthRequest :
    warmDisk.IsTree ∧ (∀ key, Cache.entry? { directory := "cache" } key warmDisk = none) ∧
      (∀ content, LoadedModule.contentOf selfCallBytes none = some content →
        (scannedIn (depthRequest 5) content).issues.length = 1) ∧
      IsHistory "cache" ([.audit (depthRequest 1)] ++ [.audit (depthRequest 5)]) warmDisk ∧
      Set.InjOn Blake3.hash (hashedIn ([.audit (depthRequest 1)] ++ [.audit (depthRequest 5)]) warmDisk) ∧
      (audit (depthRequest 5) (diskAfter [.audit (depthRequest 1)] warmDisk)).issues =
        (audit { depthRequest 5 with cache := .disabled } (diskAfter [.audit (depthRequest 1)] warmDisk)).issues := by
  have hstart : (depthRequest 1).cache.Touches warmDisk warmDisk := Cache.touches_refl _ isTree_warmDisk
  have hfresh : (depthRequest 1).cache.AllEntries (IsFresh {slowFingerprint, selfCallBytes}) warmDisk := by
    intro key e he
    cases (entry?_warmDisk key).symm.trans he
  have hfirst : (depthRequest 1).cache.Touches warmDisk (audit (depthRequest 1) warmDisk).disk :=
    (audit_of_isRunning injOn_hash_selfCall (hashedBy_depthRequest hstart) (canAudit_depthRequest hstart)
      ⟨hstart, hfresh⟩).2.touches
  have hhistory : IsHistory "cache" ([.audit (depthRequest 1)] ++ [.audit (depthRequest 5)]) warmDisk :=
    ⟨canAudit_depthRequest hstart, canAudit_depthRequest hfirst, trivial⟩
  have hhash : Set.InjOn Blake3.hash
      (hashedIn ([.audit (depthRequest 1)] ++ [.audit (depthRequest 5)]) warmDisk) := by
    refine injOn_hash_selfCall.mono (Set.union_subset (hashedBy_depthRequest hstart) ?_)
    exact Set.union_subset (hashedBy_depthRequest hfirst) (Set.empty_subset _)
  exact ⟨isTree_warmDisk, entry?_warmDisk, fun _ h => (hasSizes_scannedIn 5 h).1, hhistory, hhash,
    issues_audit_eq_disabled isTree_warmDisk entry?_warmDisk hhistory hhash⟩

end Analyzer.Code

/-! ### Two ways to a call graph

An audit builds its call graph module by module from the calls of each, which are found by a scan or
in the cache. The graph of some files is built from the calls of all their instructions at once.
Both hold the same calls in the same order, each as it was first seen
(`callGraph_eq_auditGraph`). -/

open List

namespace CallGraph

variable {g g' : CallGraph}

/-! ### What the edges decide -/

variable (h : g.edges = g'.edges)
include h

lemma expand_congr : g.expand = g'.expand := by
  funext depth n
  rw [expand, expand, h]

lemma hierarchy_congr : g.hierarchy = g'.hierarchy := by
  funext method depth
  rw [hierarchy, hierarchy, expand_congr h]

lemma expandIssue_congr : g.expandIssue = g'.expandIssue := by
  funext depth i
  rw [expandIssue, expandIssue, expand_congr h]

lemma stats_congr : g.stats = g'.stats := by
  rw [stats, stats, h]

end CallGraph

namespace Analyzer.Code

open Digest

variable {r : AuditRequest} {d : Disk}

/-! ### The graph of an audit -/

def surveyed (r : AuditRequest) (d : Disk) : List Findings := (survey (scanning r) r 1 (loadable d r.modulePaths) d).findings

def auditGraph (r : AuditRequest) (d : Disk) : CallGraph := graphOf (surveyed r d)

/-- Whether a disk was left by a history that an audit can be made behind, with inputs that the hash
function tells apart. -/
def HasOwnEntries (r : AuditRequest) (d : Disk) : Prop :=
  ∃ (directory : String) (d₀ : Disk) (es : List Event), d₀.IsTree ∧
    (∀ key, Cache.entry? { directory } key d₀ = none) ∧ IsHistory directory (es ++ [.audit r]) d₀ ∧
    Set.InjOn Blake3.hash (hashedIn (es ++ [.audit r]) d₀) ∧ d = diskAfter es d₀

lemma IsCutAt.eq_of_not_isCanceled {looks count k : Nat} (h : IsCutAt r looks count k)
    (hcanceled : ∀ n, r.isCanceled n = false) : k = count := by
  refine Nat.le_antisymm h.le (Nat.le_of_not_lt fun hlt => ?_)
  cases (hcanceled (looks + k)).symm.trans (h.at_cut hlt)

lemma surveyed_eq (hcanceled : ∀ n, r.isCanceled n = false) (hcache : r.cache.isEnabled = false ∨ HasOwnEntries r d) :
    surveyed r d = (loadable d r.modulePaths).map (scanned r) := by
  have hall : ∃ k, IsCutAt r 1 (loadable d r.modulePaths).length k ∧
      surveyed r d = ((loadable d r.modulePaths).take k).map (scanned r) := by
    -- the invariant of the survey is trivial without a cache, and with one that every entry is sound
    rcases hcache with hdisabled | ⟨directory, d₀, es, htree, hempty, hes, hhash, rfl⟩
    · obtain ⟨k, hcut, hfindings, -⟩ := survey_eq (fun _ => True) (loadable d r.modulePaths) (d := d)
        (fun m _ d' _ => ⟨examine_of_disabled hdisabled m d', trivial⟩) 1 trivial
      exact ⟨k, hcut, hfindings⟩
    · have hstart : IsSound (hashedIn (es ++ [.audit r]) d₀) directory d₀ := by
        refine ⟨htree, fun key e he => ?_⟩
        rw [hempty key] at he
        cases he
      obtain ⟨hsound, hcan, hsub⟩ := hstart.diskAfter hhash Set.Subset.rfl hes
      obtain ⟨k, hcut, hfindings, -⟩ := survey_eq (IsRunning _ r (diskAfter es d₀)) (loadable _ r.modulePaths)
        (fun m hm d' hd' => examine_of_isRunning hhash hsub hcan hm hd') 1 (hsound.isRunning hcan.directory_eq)
      exact ⟨k, hcut, hfindings⟩
  obtain ⟨k, hcut, hfindings⟩ := hall
  rw [hfindings, hcut.eq_of_not_isCanceled hcanceled, take_length]

lemma edges_ofList_eq_callsOf (ms : List LoadedModule) :
    (CallGraph.ofList (ms.flatMap fun m => m.content.instructions.filterMap ScannedInstruction.edge?)).edges.toList =
      callsOf ms := by
  rw [CallGraph.edges_ofList, callsOf, instructionsOf, filterMap_flatMap]

/-- The graph that an audit builds module by module is that of all instructions of its files, with
the same edges in the same order. So the callers of every method and the shape of the graph are the
same, and the callers that the audit gives its issues are those of the graph of the files. -/
theorem callGraph_eq_auditGraph (hcanceled : ∀ n, r.isCanceled n = false)
    (hcache : r.cache.isEnabled = false ∨ HasOwnEntries r d) :
    ∃ g, callGraph d r.modulePaths false = .ok (g, (Scan.openAll d r.modulePaths).failures) ∧
      (auditGraph r d).edges = g.edges ∧
      (∀ method depth, (auditGraph r d).hierarchy method depth = g.hierarchy method depth) ∧
      (auditGraph r d).stats = g.stats ∧
      (audit r d).issues = ((Scan.openAll d r.modulePaths).failures.map fun (path, f) => unloadable path f) ++
        ((surveyed r d).flatMap (·.issues)).map (g.expandIssue r.callDepth) := by
  let edges := (loadable d r.modulePaths).flatMap fun m => m.content.instructions.filterMap ScannedInstruction.edge?
  have hgraph : callGraph d r.modulePaths false =
      .ok (CallGraph.ofList edges, (Scan.openAll d r.modulePaths).failures) := by
    rw [callGraph, if_neg Bool.false_ne_true]
    dsimp only
    rw [modules_openAll]
  -- all that is read of a graph is its edges, so this is the only place where the two ways are compared
  have hedges : (auditGraph r d).edges = (CallGraph.ofList edges).edges := by
    rw [← Array.toList_inj, auditGraph, surveyed_eq hcanceled hcache, edges_graphOf, edges_ofList_eq_callsOf]
  have hopen : Scan.openUnlessCanceled d r.modulePaths (r.isCanceled 0) = .ok (Scan.openAll d r.modulePaths) := by
    rw [Scan.openUnlessCanceled, hcanceled 0]
    rfl
  refine ⟨_, hgraph, hedges, fun method depth => ?_, CallGraph.stats_congr hedges, ?_⟩
  · rw [CallGraph.hierarchy_congr hedges]
  · rw [issues_audit hopen, modules_openAll, ← CallGraph.expandIssue_congr hedges]
    rfl

/-- An audit with a cache, which it fills. -/
theorem callGraph_eq_auditGraph_depthRequest :
    HasOwnEntries (depthRequest 5) warmDisk ∧
    ∃ g, callGraph warmDisk (depthRequest 5).modulePaths false =
        .ok (g, (Scan.openAll warmDisk (depthRequest 5).modulePaths).failures) ∧
      (auditGraph (depthRequest 5) warmDisk).edges = g.edges ∧ (auditGraph (depthRequest 5) warmDisk).stats = g.stats := by
  have hstart : (depthRequest 5).cache.Touches warmDisk warmDisk := Cache.touches_refl _ isTree_warmDisk
  have hentries : HasOwnEntries (depthRequest 5) warmDisk := by
    refine ⟨"cache", warmDisk, [], isTree_warmDisk, entry?_warmDisk, ⟨canAudit_depthRequest hstart, trivial⟩, ?_, rfl⟩
    exact injOn_hash_selfCall.mono (Set.union_subset (hashedBy_depthRequest hstart) (Set.empty_subset _))
  obtain ⟨g, hgraph, hedges, -, hstats, -⟩ := callGraph_eq_auditGraph (fun _ => rfl) (.inr hentries)
  exact ⟨hentries, g, hgraph, hedges, hstats⟩

end Analyzer.Code

end BytecodeAudit
