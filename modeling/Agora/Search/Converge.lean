import Agora.Search.Projection
import Mathlib.Logic.Equiv.List

/-!
# The projection converges

Every entry carries the fingerprint of what it shows (`Consistent`), whatever run wrote it and
however that run ended. A scan over a point in time (`PointInTime`) shows documents that are there,
each once, and ends only after all of them; so a run that ends normally has compared every document
and every entry (`keeps_scan`, `scan_establishes`).

What is said about the projection in the course of a run is said of its contents alone: a request
that only reads changes nothing of it.
-/

namespace Agora

namespace Search

open Query

variable {ν α β : Type} {e : Elasticsearch}

/-! ## Requests and what they keep -/

/-- A property of the contents of the projection. -/
def Holds (P : Index (Entry ν) → Prop) (w : World ν) : Prop := P w.projection

theorem keeps_request {P : Index (Entry ν) → Prop} {effect : ℕ → Index (Entry ν) → Index (Entry ν)}
    (h : ∀ n p, P p → P (effect n p)) (reply : World ν → α) :
    Keeps (Holds P) (request e effect reply) := by
  intro w hw
  rw [request]
  split
  · exact h _ _ hw
  · exact h _ _ hw
  · exact hw

theorem keeps_ask (P : Index (Entry ν) → Prop) (reply : World ν → α) :
    Keeps (Holds P) (ask e reply) := keeps_request (fun _ _ ↦ id) reply

theorem request_ok {effect : ℕ → Index (Entry ν) → Index (Entry ν)} {reply : World ν → α}
    {w w' : World ν} {a : α} (h : request e effect reply w = (.ok a, w')) :
    a = reply w ∧ w'.projection = effect w.requests w.projection := by
  rw [request] at h
  split at h
  · obtain ⟨ha, rfl⟩ := Prod.mk.inj h
    exact ⟨(Except.ok.inj ha).symm, rfl⟩
  · exact absurd (Prod.mk.inj h).1 (by simp)
  · exact absurd (Prod.mk.inj h).1 (by simp)

theorem ask_ok {reply : World ν → α} {w w' : World ν} {a : α} (h : ask e reply w = (.ok a, w')) :
    a = reply w ∧ w'.projection = w.projection := request_ok h

theorem keeps_finallyDo {I : World ν → Prop} {x : Query (World ν) α} {last : Query (World ν) Unit}
    (hx : Keeps I x) (hlast : Keeps I last) : Keeps I (finallyDo x last) :=
  fun w hw ↦ hlast _ (hx w hw)

/-- Whenever the computation returns, `I` holds. -/
def Establishes (I : World ν → Prop) (x : Query (World ν) α) : Prop :=
  ∀ w a w', x w = (.ok a, w') → I w'

section Establishes

variable {I : World ν → Prop}

theorem establishes_of_keeps {x : Query (World ν) α} (hx : Keeps I x) {w w' : World ν} {a : α}
    (hw : I w) (h : x w = (.ok a, w')) : I w' := by
  have hkept := hx w hw
  rwa [h] at hkept

theorem establishes_bind {x : Query (World ν) α} {f : α → Query (World ν) β}
    (hf : ∀ a, Establishes I (f a)) : Establishes I (x >>= f) := by
  intro w b w' h
  obtain ⟨a, t, -, hb⟩ := Query.bind_ok.mp h
  exact hf a t b w' hb

theorem establishes_then {x : Query (World ν) α} {f : α → Query (World ν) β}
    (hx : Establishes I x) (hf : ∀ a, Keeps I (f a)) : Establishes I (x >>= f) := by
  intro w b w' h
  obtain ⟨a, t, ha, hb⟩ := Query.bind_ok.mp h
  exact establishes_of_keeps (hf a) (hx w a t ha) hb

theorem keeps_foldlM_of_mem {γ : Type} {f : α → γ → Query (World ν) α} {l : List γ}
    (hf : ∀ a, ∀ c ∈ l, Keeps I (f a c)) (a : α) : Keeps I (l.foldlM f a) := by
  induction l generalizing a with
  | nil => exact keeps_pure a
  | cons c l ih =>
    rw [List.foldlM_cons]
    exact keeps_bind (hf a c List.mem_cons_self) fun b ↦
      ih (fun b' c' h ↦ hf b' c' (List.mem_cons_of_mem c h)) b

theorem keeps_forM_of_mem {γ : Type} {f : γ → Query (World ν) PUnit} {l : List γ}
    (hf : ∀ c ∈ l, Keeps I (f c)) : Keeps I (l.forM f) := by
  induction l with
  | nil => exact keeps_pure _
  | cons c l ih =>
    exact keeps_bind (hf c List.mem_cons_self) fun _ ↦
      ih fun c' h ↦ hf c' (List.mem_cons_of_mem c h)

/-- One element of the list establishes it, and the others keep it. -/
theorem establishes_foldlM {γ : Type} {f : α → γ → Query (World ν) α} {l : List γ} {c : γ}
    (hc : c ∈ l) (hest : ∀ a, Establishes I (f a c)) (hkeeps : ∀ a, ∀ c' ∈ l, Keeps I (f a c'))
    (a : α) : Establishes I (l.foldlM f a) := by
  induction l generalizing a with
  | nil => exact absurd hc List.not_mem_nil
  | cons d l ih =>
    have htail : ∀ b, ∀ c' ∈ l, Keeps I (f b c') := fun b c' h ↦
      hkeeps b c' (List.mem_cons_of_mem d h)
    rw [List.foldlM_cons]
    rcases List.mem_cons.mp hc with rfl | hc
    · exact establishes_then (hest a) (keeps_foldlM_of_mem htail)
    · exact establishes_bind (ih hc htail)

theorem establishes_forM {γ : Type} {f : γ → Query (World ν) PUnit} {l : List γ} {c : γ}
    (hc : c ∈ l) (hest : Establishes I (f c)) (hkeeps : ∀ c' ∈ l, Keeps I (f c')) :
    Establishes I (l.forM f) := by
  induction l with
  | nil => exact absurd hc List.not_mem_nil
  | cons d l ih =>
    have htail : ∀ c' ∈ l, Keeps I (f c') := fun c' h ↦ hkeeps c' (List.mem_cons_of_mem d h)
    rcases List.mem_cons.mp hc with rfl | hc
    · exact establishes_then hest fun _ ↦ keeps_forM_of_mem htail
    · exact establishes_bind fun _ ↦ ih hc htail

end Establishes

/-! ## Scans over a point in time -/

/-- A scan that has yielded some pages, and where it goes on. -/
inductive Begun (search : ℕ → Index α → String → Option (List ℤ) → Response α) (opened : Index α) :
    List (List (Hit α)) → String → Option (List ℤ) → Prop
  | start (pit : String) : Begun search opened [] pit none
  | page {yielded : List (List (Hit α))} {pit : String} {after : Option (List ℤ)} {n : ℕ}
      (h : Begun search opened yielded pit after)
      (hwhole : (search n opened pit after).timedOut = false ∧
        (search n opened pit after).failedShards = 0)
      (hhits : (search n opened pit after).hits ≠ []) :
      Begun search opened (yielded ++ [(search n opened pit after).hits])
        ((search n opened pit after).pitId.getD pit)
        ((search n opened pit after).hits.getLast?.map Hit.sort)

/-- A scan over a point in time yields each document exactly once, or it raises. -/
structure PointInTime (search : ℕ → Index α → String → Option (List ℤ) → Response α) : Prop where
  once : ∀ {opened yielded pit after}, Begun search opened yielded pit after →
    (yielded.flatten.map Hit.id).Nodup
  present : ∀ {opened yielded pit after}, Begun search opened yielded pit after →
    ∀ hit ∈ yielded.flatten, opened.find hit.id = some hit.source
  each : ∀ {opened yielded pit after n}, Begun search opened yielded pit after →
    (search n opened pit after).timedOut = false → (search n opened pit after).failedShards = 0 →
    (search n opened pit after).hits = [] →
    ∀ id value, opened.find id = some value → ∃ hit ∈ yielded.flatten, hit.id = id

section Scan

variable {search : ℕ → Index α → String → Option (List ℤ) → Response α}
  {visit : ℕ → List (Hit α) → Query (World ν) ℕ} {P : Index (Entry ν) → Prop}

/-- What every page keeps, the scan keeps, however it ends; `R` is what is known of the hits. -/
theorem keeps_pages {opened : Index α} {R : Hit α → Prop}
    (hR : ∀ {yielded pit after}, Begun search opened yielded pit after →
      ∀ hit ∈ yielded.flatten, R hit)
    (hvisit : ∀ updated hits, (∀ hit ∈ hits, R hit) → Keeps (Holds P) (visit updated hits))
    {limit updated : ℕ} {yielded : List (List (Hit α))} {pit : String} {after : Option (List ℤ)}
    (hbegun : Begun search opened yielded pit after) :
    Keeps (Holds P) (pages e (fun n ↦ search n opened) visit limit pit after updated) := by
  induction limit generalizing updated yielded pit after with
  | zero => exact keeps_fail _
  | succ limit ih =>
    intro w hw
    rw [pages, Query.bind_run]
    have hask := keeps_ask (e := e) P (fun w ↦ search w.requests opened pit after) w hw
    rcases hrun : ask e (fun w : World ν ↦ search w.requests opened pit after) w with
      ⟨_ | response, w₁⟩
    · rwa [hrun] at hask
    · rw [hrun] at hask
      obtain ⟨rfl, -⟩ := ask_ok hrun
      dsimp only
      split_ifs with hpartial hempty
      · exact hask
      · exact hask
      · have hpage : Begun search opened _ _ _ := hbegun.page (n := w.requests)
          (by simpa using hpartial) (by simpa using hempty)
        refine keeps_bind (hvisit _ _ fun hit hhit ↦ ?_) (fun _ ↦ ih hpage) w₁ hask
        exact hR hpage hit (by simp [hhit])

/-- What the page of a document establishes and the other pages keep holds when the scan ends. -/
theorem establishes_pages {opened : Index α} (hsearch : PointInTime search) {id : String}
    {value : α} (hid : opened.find id = some value)
    (hvisit : ∀ updated hits, (∀ hit ∈ hits, opened.find hit.id = some hit.source) →
      Keeps (Holds P) (visit updated hits))
    (hest : ∀ updated hits, (∀ hit ∈ hits, opened.find hit.id = some hit.source) →
      (∃ hit ∈ hits, hit.id = id) → Establishes (Holds P) (visit updated hits))
    {limit updated a : ℕ} {yielded : List (List (Hit α))} {pit : String} {after : Option (List ℤ)}
    (hbegun : Begun search opened yielded pit after) {w w' : World ν}
    (hP : (∃ hit ∈ yielded.flatten, hit.id = id) → Holds P w)
    (h : pages e (fun n ↦ search n opened) visit limit pit after updated w = (.ok a, w')) :
    Holds P w' := by
  induction limit generalizing updated yielded pit after w with
  | zero => exact absurd (Prod.mk.inj h).1 (by simp)
  | succ limit ih =>
    rw [pages] at h
    obtain ⟨response, w₁, hask, h⟩ := Query.bind_ok.mp h
    obtain ⟨rfl, hsame⟩ := ask_ok hask
    have hP₁ : (∃ hit ∈ yielded.flatten, hit.id = id) → Holds P w₁ := fun hmem ↦ by
      rw [Holds, hsame]
      exact hP hmem
    split_ifs at h with hpartial hempty
    · exact absurd (Prod.mk.inj h).1 (by simp)
    · -- an empty page ends the scan, so the document was yielded before
      simp only [ne_eq, Bool.or_eq_true, decide_eq_true_eq, not_or, Bool.not_eq_true,
        Decidable.not_not] at hpartial
      obtain ⟨-, rfl⟩ := Prod.mk.inj h
      exact hP₁
        (hsearch.each hbegun hpartial.1 hpartial.2 (List.isEmpty_iff.mp hempty) id value hid)
    · have hpage : Begun search opened _ _ _ := hbegun.page (n := w.requests)
        (by simpa using hpartial) (by simpa using hempty)
      obtain ⟨updated', w₂, hrun, h⟩ := Query.bind_ok.mp h
      have hhits : ∀ hit ∈ (search w.requests opened pit after).hits,
          opened.find hit.id = some hit.source := fun hit hhit ↦
        hsearch.present hpage hit (by simp [hhit])
      refine ih hpage (fun hmem ↦ ?_) h
      rw [List.flatten_append, List.flatten_singleton] at hmem
      obtain ⟨hit, hhit, heq⟩ := hmem
      rcases List.mem_append.mp hhit with hold | hnew
      · exact establishes_of_keeps (hvisit _ _ hhits) (hP₁ ⟨hit, hold, heq⟩) hrun
      · exact hest _ _ hhits ⟨hit, hnew, heq⟩ _ _ _ hrun

variable {index : World ν → Index α}

theorem keeps_scan {R : Hit α → Prop}
    (hR : ∀ {w yielded pit after}, Begun search (index w) yielded pit after →
      ∀ hit ∈ yielded.flatten, R hit)
    (hvisit : ∀ updated hits, (∀ hit ∈ hits, R hit) → Keeps (Holds P) (visit updated hits))
    (limit updated : ℕ) : Keeps (Holds P) (scan e index search visit limit updated) := by
  intro w hw
  rw [scan, Query.bind_run]
  have hask := keeps_ask (e := e) P (fun w ↦ (e.pit w.requests, index w)) w hw
  rcases hrun : ask e (fun w : World ν ↦ (e.pit w.requests, index w)) w with ⟨_ | opened, w₁⟩
  · rwa [hrun] at hask
  · rw [hrun] at hask
    obtain ⟨rfl, -⟩ := ask_ok hrun
    exact keeps_finallyDo (keeps_pages hR hvisit (.start _)) (keeps_ask P _) w₁ hask

/-- What a scan that ends establishes for a document of the index it opened. -/
theorem scan_establishes (hsearch : PointInTime search) {w w' : World ν} {limit updated a : ℕ}
    (h : scan e index search visit limit updated w = (.ok a, w')) {id : String} {value : α}
    (hid : (index w).find id = some value)
    (hvisit : ∀ updated hits, (∀ hit ∈ hits, (index w).find hit.id = some hit.source) →
      Keeps (Holds P) (visit updated hits))
    (hest : ∀ updated hits, (∀ hit ∈ hits, (index w).find hit.id = some hit.source) →
      (∃ hit ∈ hits, hit.id = id) → Establishes (Holds P) (visit updated hits)) : Holds P w' := by
  rw [scan] at h
  obtain ⟨opened, w₁, hask, h⟩ := Query.bind_ok.mp h
  obtain ⟨rfl, -⟩ := ask_ok hask
  dsimp only [finallyDo] at h
  obtain ⟨hpages, rfl⟩ := Prod.mk.inj h
  refine keeps_ask P _ _ ?_
  exact establishes_pages hsearch hid hvisit hest (.start _) (by simp) (Prod.ext hpages rfl)

end Scan

/-! ## Pages of the two scans -/

variable {digest : Content → String} {model : E5 ν} {P : Index (Entry ν) → Prop}

theorem mem_batches {l : List α} {a : α} (h : a ∈ l) : ∃ batch ∈ batches l, a ∈ batch := by
  obtain ⟨i, hi, rfl⟩ := List.mem_iff_getElem.mp h
  refine ⟨_, List.mem_map.mpr ⟨i / 4, List.mem_range.mpr (by omega), rfl⟩, ?_⟩
  refine List.mem_iff_getElem.mpr ⟨i % 4, ?_, ?_⟩
  · rw [List.length_take, List.length_drop]
    omega
  · rw [List.getElem_take, List.getElem_drop]
    congr 1
    omega

theorem mem_of_mem_batches {l batch : List α} (h : batch ∈ batches l) {a : α} (ha : a ∈ batch) :
    a ∈ l := by
  obtain ⟨k, -, rfl⟩ := List.mem_map.mp h
  exact List.mem_of_mem_drop (List.mem_of_mem_take ha)

/-- The encoder's session answers with one vector for each text. -/
def E5.OnePerText (model : E5 ν) : Prop :=
  ∀ now texts vectors, model.infer now texts = .ok vectors → vectors.length = texts.length

theorem E5.OnePerText.encode (h : model.OnePerText) {now : ℕ} {texts : List String} {kind : String}
    {vectors : List ν} (hv : model.encode now texts kind = .ok vectors) :
    vectors.length = texts.length := by
  rw [E5.encode] at hv
  split_ifs at hv
  · exact absurd hv Checked.reject_ok
  · exact absurd hv Checked.reject_ok
  · rw [h now _ vectors hv, List.length_map]

/-- What a written entry keeps. -/
def KeptBy (digest : Content → String) (model : E5 ν) (P : Index (Entry ν) → Prop)
    (hit : Hit Document) : Prop :=
  ∀ (p : Index (Entry ν)) vector updatedAt, P p →
    P (p.set hit.id (entryOf digest model hit vector updatedAt))

theorem keeps_put {hit : Hit Document} (h : KeptBy digest model P hit) (vector : ν) :
    Keeps (Holds P) (put e digest model hit vector) :=
  keeps_request (fun _ p ↦ h p _ _) _

theorem keeps_writeBatch {batch : List (Hit Document)}
    (h : ∀ hit ∈ batch, KeptBy digest model P hit) (updated : ℕ) :
    Keeps (Holds P) (writeBatch e digest model updated batch) := by
  refine keeps_bind (fun _ hw ↦ hw) fun vectors ↦
    keeps_foldlM_of_mem (fun _ pair hpair ↦ ?_) updated
  exact keeps_bind (keeps_put (h pair.1 (List.of_mem_zip hpair).1) pair.2) fun _ ↦ keeps_pure _

theorem keeps_updatePage {hits : List (Hit Document)} (h : ∀ hit ∈ hits, KeptBy digest model P hit)
    (updated : ℕ) : Keeps (Holds P) (updatePage e digest model updated hits) := by
  refine keeps_bind (keeps_ask P _) fun existing ↦ ?_
  split_ifs
  · exact keeps_fail _
  · refine keeps_foldlM_of_mem (fun _ batch hbatch ↦ keeps_writeBatch (fun hit hhit ↦ ?_) _) updated
    exact h hit (List.mem_of_mem_filter (mem_of_mem_batches hbatch hhit))

/-- A batch that is written establishes what each of its entries does. -/
theorem writeBatch_establishes (hmodel : model.OnePerText) {batch : List (Hit Document)}
    {hit : Hit Document} (hhit : hit ∈ batch) (h : ∀ hit ∈ batch, KeptBy digest model P hit)
    (hput : ∀ (p : Index (Entry ν)) vector updatedAt,
      P (p.set hit.id (entryOf digest model hit vector updatedAt)))
    (updated : ℕ) : Establishes (Holds P) (writeBatch e digest model updated batch) := by
  intro w a w' hrun
  obtain ⟨vectors, w₁, hvectors, hrun⟩ := Query.bind_ok.mp hrun
  have hlength := hmodel.encode (Prod.mk.inj hvectors).1
  rw [List.length_map] at hlength
  have hmem : hit ∈ (batch.zip vectors).map Prod.fst := by rwa [List.map_fst_zip hlength.ge]
  obtain ⟨⟨_, vector⟩, hpair, rfl⟩ := List.mem_map.mp hmem
  refine establishes_foldlM hpair (fun _ ↦ ?_) (fun _ pair hpair' ↦ ?_) updated w₁ a w' hrun
  · refine establishes_then (fun w _ w' hrun ↦ ?_) fun _ ↦ keeps_pure _
    obtain ⟨-, hset⟩ := request_ok hrun
    rw [Holds, hset]
    exact hput _ _ _
  · exact keeps_bind (keeps_put (h pair.1 (List.of_mem_zip hpair').1) pair.2) fun _ ↦ keeps_pure _

theorem keeps_mget (P : Index (Entry ν) → Prop) (index : World ν → Index α) (ids : List String) :
    Keeps (Holds P) (mget e index ids) := keeps_ask P _

/-- What the documents that were fetched say about the index. -/
theorem mget_ok {index : World ν → Index α} {ids : List String} {w w' : World ν}
    {docs : List (String × Fetched α)} (h : mget e index ids w = (.ok docs, w')) :
    w'.projection = w.projection ∧ docs.map Prod.fst = ids ∧
      ∀ doc ∈ docs, doc.2.failed = true ∨ (∃ v, doc.2 = .found v ∧ (index w).find doc.1 = some v) ∨
        (doc.2 = .missing ∧ (index w).find doc.1 = none) := by
  obtain ⟨rfl, hsame⟩ := ask_ok h
  refine ⟨hsame, by rw [List.map_map]; exact List.map_id _, fun doc hdoc ↦ ?_⟩
  obtain ⟨id, -, rfl⟩ := List.mem_map.mp hdoc
  dsimp only
  split_ifs
  · exact .inl rfl
  · rcases hfind : (index w).find id with _ | v
    · exact .inr (.inr ⟨rfl, rfl⟩)
    · exact .inr (.inl ⟨v, rfl, rfl⟩)

theorem mem_of_previous {existing : List (String × Fetched α)} {id : String} {value : α}
    (h : previous existing id = some value) : (id, .found value) ∈ existing := by
  rw [previous] at h
  split at h
  · next v hlookup =>
    rw [← Option.some.inj h]
    exact List.mem_reverse.mp (Assoc.mem_of_lookup hlookup)
  · exact absurd h (by simp)

/-- The entry under `id` carries the fingerprint of a document. -/
def CurrentAt (digest : Content → String) (revision : String) (id : String) (document : Document)
    (p : Index (Entry ν)) : Prop :=
  (p.find id).map Entry.fingerprint = some (fingerprint digest document revision)

theorem CurrentAt.keptBy {id : String} {document : Document} {hit : Hit Document}
    (h : hit.id = id → hit.source = document) :
    KeptBy digest model (CurrentAt digest model.revision id document) hit := by
  intro p vector updatedAt hp
  rw [CurrentAt, Index.find_set]
  split_ifs with hid
  · rw [← h hid]
    rfl
  · exact hp

/-- A page of the source leaves the entries of its documents up to date: the others were. -/
theorem updatePage_establishes (hmodel : model.OnePerText) {hits : List (Hit Document)}
    {hit : Hit Document} (hhit : hit ∈ hits)
    (hsame : ∀ hit' ∈ hits, hit'.id = hit.id → hit'.source = hit.source) (updated : ℕ) :
    Establishes (Holds (CurrentAt digest model.revision hit.id hit.source))
      (updatePage e digest model updated hits) := by
  intro w a w' h
  have hkept : ∀ hit' ∈ hits,
      KeptBy digest model (CurrentAt digest model.revision hit.id hit.source) hit' :=
    fun hit' hhit' ↦ CurrentAt.keptBy (hsame hit' hhit')
  obtain ⟨existing, w₁, hexisting, h⟩ := Query.bind_ok.mp h
  obtain ⟨hprojection, -, hdocs⟩ := mget_ok hexisting
  split_ifs at h with hfailed
  · exact absurd (Prod.mk.inj h).1 (by simp)
  have hbatch : ∀ batch ∈ batches (hits.filter fun hit ↦
      previous existing hit.id ≠ some (fingerprint digest hit.source model.revision)),
      ∀ hit' ∈ batch, hit' ∈ hits := fun batch hbatch hit' hhit' ↦
    List.mem_of_mem_filter (mem_of_mem_batches hbatch hhit')
  by_cases hprevious :
      previous existing hit.id = some (fingerprint digest hit.source model.revision)
  · -- the entry was read with this fingerprint already
    have hmem := mem_of_previous hprevious
    have hcurrent : Holds (CurrentAt digest model.revision hit.id hit.source) w₁ := by
      rcases hdocs _ hmem with hfail | ⟨v, hv, hfind⟩ | ⟨hmissing, -⟩
      · exact absurd hfail (by simp [Fetched.failed])
      · rw [Holds, hprojection, CurrentAt, Fetched.found.inj hv, ← hfind, fingerprints,
          Index.find_select]
      · exact absurd hmissing (by simp)
    refine establishes_of_keeps ?_ hcurrent h
    exact keeps_foldlM_of_mem (fun _ batch hb ↦
      keeps_writeBatch (fun hit' hh ↦ hkept hit' (hbatch batch hb hit' hh)) _) updated
  · have hchanged : hit ∈ hits.filter fun hit ↦
        previous existing hit.id ≠ some (fingerprint digest hit.source model.revision) :=
      List.mem_filter.mpr ⟨hhit, by simpa using hprevious⟩
    obtain ⟨batch, hb, hin⟩ := mem_batches hchanged
    refine establishes_foldlM hb (fun _ ↦ ?_) (fun _ batch' hb' ↦
      keeps_writeBatch (fun hit' hh ↦ hkept hit' (hbatch batch' hb' hit' hh)) _) updated w₁ a w' h
    refine writeBatch_establishes hmodel hin (fun hit' hh ↦ hkept hit' (hbatch batch hb hit' hh))
      (fun p vector updatedAt ↦ ?_) _
    rw [CurrentAt, Index.find_set, if_pos rfl]
    rfl

/-- A page of the projection deletes only what the source does not have at that time. -/
theorem keeps_deletePage
    (h : ∀ n id, (e.source n).find id = none → ∀ p : Index (Entry ν), P p → P (p.erase id))
    (updated : ℕ) (hits : List (Hit String)) : Keeps (Holds P) (deletePage e updated hits) := by
  intro w hw
  rw [deletePage, Query.bind_run]
  have hmget := keeps_mget (e := e) P (fun w ↦ e.source w.requests) (hits.map Hit.id) w hw
  rcases hrun : mget e (fun w : World ν ↦ e.source w.requests) (hits.map Hit.id) w with
    ⟨_ | originals, w₁⟩
  · exact (congrArg (fun r ↦ Holds P r.2) hrun).mp hmget
  · have hw₁ : Holds P w₁ := (congrArg (fun r ↦ Holds P r.2) hrun).mp hmget
    obtain ⟨-, -, hdocs⟩ := mget_ok hrun
    dsimp only
    split_ifs
    · exact hw₁
    · refine keeps_bind (keeps_forM_of_mem fun doc hdoc ↦ ?_) (fun _ ↦ keeps_pure _) w₁ hw₁
      rcases hdocs doc hdoc with hfail | ⟨v, hv, -⟩ | ⟨hmissing, hnone⟩
      · rcases hd : doc.2 with v | _ | _
        · exact keeps_pure _
        · rw [hd] at hfail
          exact absurd hfail (by simp [Fetched.failed])
        · exact keeps_pure _
      · rw [hv]
        exact keeps_pure _
      · rw [hmissing]
        exact keeps_request (fun _ p hp ↦ h _ _ hnone p hp) _

/-- The entries of the page whose documents the source does not have are gone. -/
theorem deletePage_establishes {hits : List (Hit String)} {id : String}
    (hid : ∃ hit ∈ hits, hit.id = id) (hnone : ∀ n, (e.source n).find id = none) (updated : ℕ) :
    Establishes (Holds fun p : Index (Entry ν) ↦ p.find id = none) (deletePage e updated hits) := by
  intro w a w' h
  obtain ⟨originals, w₁, horiginals, h⟩ := Query.bind_ok.mp h
  obtain ⟨-, hids, hdocs⟩ := mget_ok horiginals
  split_ifs at h with hfailed
  · exact absurd (Prod.mk.inj h).1 (by simp)
  have herase : ∀ id' (p : Index (Entry ν)), p.find id = none → (p.erase id').find id = none := by
    intro id' p hp
    rw [Index.find_erase, hp, ite_self]
  obtain ⟨hit, hhit, rfl⟩ := hid
  have hmem : hit.id ∈ originals.map Prod.fst := by
    rw [hids]
    exact List.mem_map_of_mem hhit
  obtain ⟨⟨_, doc⟩, hdoc, rfl⟩ := List.mem_map.mp hmem
  refine establishes_then (establishes_forM hdoc ?_ fun doc' _ ↦ ?_) (fun _ ↦ keeps_pure _) w₁ a
    w' h
  · rcases hdocs _ hdoc with hfail | ⟨v, -, hv⟩ | ⟨hmissing, -⟩
    · exact absurd (List.any_eq_true.mpr ⟨_, hdoc, hfail⟩) hfailed
    · exact absurd (hv.symm.trans (hnone _)) (by simp)
    · dsimp only at hmissing
      subst hmissing
      intro w _ w' hrun
      obtain ⟨-, hset⟩ := request_ok hrun
      rw [Holds, hset, Index.find_erase, if_pos rfl]
  · rcases doc'.2 with v | _ | _
    · exact keeps_pure _
    · exact keeps_request (fun _ p ↦ herase _ p) _
    · exact keeps_pure _

/-! ## Whole runs -/

/-- The document an entry shows. -/
def Entry.document (entry : Entry ν) : Document :=
  ⟨entry.canvasName, entry.canvasId, entry.description⟩

/-- Every entry carries the fingerprint of what it shows. -/
def Consistent (digest : Content → String) (p : Index (Entry ν)) : Prop :=
  ∀ id entry, p.find id = some entry →
    entry.fingerprint = fingerprint digest entry.document entry.modelRevision

/-- What earlier runs left behind: each against a source, a model and requests of its own, and
however it ended. -/
inductive Left (digest : Content → String) : Index (Entry ν) → Prop
  | empty : Left digest .empty
  | run {w : World ν} (h : Left digest w.projection) (e : Elasticsearch) (model : E5 ν)
      (limit : ℕ) :
      Left digest (synchronize e digest model limit w).2.projection

/-- What writing any entry and deleting any entry keep, a run keeps. -/
theorem keeps_synchronize (hput : ∀ hit, KeptBy digest model P hit)
    (herase : ∀ n id, (e.source n).find id = none → ∀ p : Index (Entry ν), P p → P (p.erase id))
    (limit : ℕ) : Keeps (Holds P) (synchronize e digest model limit) :=
  keeps_bind (keeps_scan (R := fun _ ↦ True) (fun _ _ _ ↦ trivial)
      (fun updated _ _ ↦ keeps_updatePage (fun hit _ ↦ hput hit) updated) limit 0)
    fun updated ↦ keeps_scan (R := fun _ ↦ True) (fun _ _ _ ↦ trivial)
      (fun updated hits _ ↦ keeps_deletePage herase updated hits) limit updated

theorem Consistent.keptBy (hit : Hit Document) : KeptBy digest model (Consistent digest) hit := by
  intro p vector updatedAt hp id entry hentry
  rw [Index.find_set] at hentry
  split_ifs at hentry
  · rw [← Option.some.inj hentry]
    rfl
  · exact hp id entry hentry

theorem Consistent.erase {p : Index (Entry ν)} (hp : Consistent digest p) (id : String) :
    Consistent digest (p.erase id) := by
  intro id' entry hentry
  rw [Index.find_erase] at hentry
  split_ifs at hentry
  exact hp id' entry hentry

theorem Left.consistent {p : Index (Entry ν)} (h : Left digest p) : Consistent digest p := by
  induction h with
  | empty => exact fun id entry h ↦ absurd h (by simp)
  | @run w _ e model limit ih =>
    exact keeps_synchronize Consistent.keptBy (fun _ id _ _ hp ↦ hp.erase id) limit w ih

/-- Without collisions, an entry with the fingerprint of a document shows that document. -/
theorem Consistent.shows (hdigest : Function.Injective digest) {p : Index (Entry ν)}
    (hp : Consistent digest p) {id revision : String} {document : Document} {entry : Entry ν}
    (hentry : p.find id = some entry) (hcurrent : CurrentAt digest revision id document p) :
    entry.canvasName.getD "" = document.canvasName.getD "" ∧
      entry.description.getD "" = document.description.getD "" ∧
      entry.canvasId = document.canvasId ∧ entry.modelRevision = revision := by
  rw [CurrentAt, hentry, Option.map_some, Option.some.injEq, hp id entry hentry] at hcurrent
  have hcontent := hdigest hcurrent
  exact ⟨congrArg Content.canvasName hcontent, congrArg Content.description hcontent,
    congrArg Content.canvasId hcontent, congrArg Content.modelRevision hcontent⟩

/-- The projection is in line with the source. -/
structure InLine (digest : Content → String) (revision : String) (source : Index Document)
    (p : Index (Entry ν)) : Prop where
  current : ∀ id document, source.find id = some document → CurrentAt digest revision id document p
  gone : ∀ id, source.find id = none → p.find id = none

/-- A run that ends, while the source stays the same, leaves the projection in line with it. -/
theorem synchronize_inLine (hmodel : model.OnePerText) (hsource : PointInTime e.searchSource)
    (hprojection : PointInTime e.searchProjection) {source : Index Document}
    (hsame : ∀ n, e.source n = source) {limit updated : ℕ} {w w' : World ν}
    (h : synchronize e digest model limit w = (.ok updated, w')) :
    InLine digest model.revision source w'.projection := by
  obtain ⟨updated₁, w₁, hfirst, hsecond⟩ := Query.bind_ok.mp h
  constructor
  · intro id document hid
    have hopened : (e.source w.requests).find id = some document := by rw [hsame, hid]
    have hwritten : Holds (CurrentAt digest model.revision id document) w₁ := by
      refine scan_establishes hsource hfirst hopened (fun updated hits hhits ↦ ?_)
        fun updated hits hhits hmem ↦ ?_
      · refine keeps_updatePage (fun hit hhit ↦ CurrentAt.keptBy fun heq ↦ ?_) updated
        have hfind := hhits hit hhit
        rw [heq, hopened] at hfind
        exact (Option.some.inj hfind).symm
      · obtain ⟨hit, hhit, rfl⟩ := hmem
        have hdocument := Option.some.inj (hopened.symm.trans (hhits hit hhit))
        rw [hdocument]
        refine updatePage_establishes hmodel hhit (fun hit' hhit' heq ↦ ?_) updated
        have hfind := hhits hit' hhit'
        rw [heq, hhits hit hhit] at hfind
        exact (Option.some.inj hfind).symm
    refine establishes_of_keeps (keeps_scan (R := fun _ ↦ True) (fun _ _ _ ↦ trivial)
      (fun updated hits _ ↦ keeps_deletePage (fun n id' hnone p hp ↦ ?_) updated hits) limit
      updated₁) hwritten hsecond
    have hne : id' ≠ id := by
      rintro rfl
      rw [hsame, hid] at hnone
      exact absurd hnone (by simp)
    rw [CurrentAt, Index.find_erase, if_neg hne]
    exact hp
  · intro id hid
    have hnone : ∀ n, (e.source n).find id = none := fun n ↦ by rw [hsame, hid]
    have hkeeps : ∀ updated hits, Keeps (Holds fun p : Index (Entry ν) ↦ p.find id = none)
        (deletePage e updated hits) := fun updated hits ↦
      keeps_deletePage (fun _ id' _ p hp ↦ by rw [Index.find_erase, hp, ite_self]) updated hits
    rcases hfind : (fingerprints w₁).find id with _ | value
    · have hstart : Holds (fun p : Index (Entry ν) ↦ p.find id = none) w₁ := by
        rw [fingerprints, Index.find_select, Option.map_eq_none_iff] at hfind
        exact hfind
      exact establishes_of_keeps (keeps_scan (R := fun _ ↦ True) (fun _ _ _ ↦ trivial)
        (fun updated hits _ ↦ hkeeps updated hits) limit updated₁) hstart hsecond
    · exact scan_establishes (P := fun p : Index (Entry ν) ↦ p.find id = none) hprojection hsecond
        hfind (fun updated hits _ ↦ hkeeps updated hits)
        fun updated hits _ hmem ↦ deletePage_establishes hmem hnone updated

/-! ### A second run -/

/-- What was fetched without an error is known for every document of the index. -/
theorem previous_of_mget {index : World ν → Index α} {ids : List String} {w w' : World ν}
    {existing : List (String × Fetched α)} (h : mget e index ids w = (.ok existing, w'))
    (hfailed : ¬(existing.any fun doc ↦ doc.2.failed) = true) {id : String} (hid : id ∈ ids)
    {value : α} (hfind : (index w).find id = some value) :
    previous existing id = some value := by
  obtain ⟨-, hids, hdocs⟩ := mget_ok h
  have hmem : id ∈ existing.reverse.map Prod.fst := by
    rwa [List.map_reverse, List.mem_reverse, hids]
  obtain ⟨doc, hlookup⟩ := Option.isSome_iff_exists.mp (Assoc.lookup_isSome_iff.mpr hmem)
  have hdoc := List.mem_reverse.mp (Assoc.mem_of_lookup hlookup)
  rw [previous, hlookup]
  rcases hdocs _ hdoc with hfail | ⟨v, hv, hv'⟩ | ⟨-, hnone⟩
  · exact absurd (List.any_eq_true.mpr ⟨_, hdoc, hfail⟩) hfailed
  · dsimp only at hv hv'
    rw [hv]
    exact hv'.symm.trans hfind
  · exact absurd (hnone.symm.trans hfind) (by simp)

/-- Nothing is written for a page whose entries are up to date. -/
theorem keeps_updatePage_current {q : Index (Entry ν)} {hits : List (Hit Document)}
    (h : ∀ hit ∈ hits, CurrentAt digest model.revision hit.id hit.source q) (updated : ℕ) :
    Keeps (Holds (· = q)) (updatePage e digest model updated hits) := by
  intro w hw
  rw [updatePage, Query.bind_run]
  have hmget := keeps_mget (e := e) (· = q) fingerprints (hits.map Hit.id) w hw
  rcases hrun : mget e (fingerprints : World ν → _) (hits.map Hit.id) w with ⟨_ | existing, w₁⟩
  · rwa [hrun] at hmget
  · rw [hrun] at hmget
    dsimp only
    split_ifs with hfailed
    · exact hmget
    · have hnone : hits.filter (fun hit ↦
          previous existing hit.id ≠ some (fingerprint digest hit.source model.revision)) = [] := by
        refine List.filter_eq_nil_iff.mpr fun hit hhit ↦ ?_
        have hfind : (fingerprints w).find hit.id
            = some (fingerprint digest hit.source model.revision) := by
          rw [fingerprints, Index.find_select, show w.projection = q from hw]
          exact h hit hhit
        rw [previous_of_mget hrun hfailed (List.mem_map_of_mem hhit) hfind]
        simp
      rw [hnone]
      exact hmget

/-- A run over a projection that is in line changes nothing, however it ends. -/
theorem InLine.synchronize_eq {source : Index Document} {w : World ν}
    (h : InLine digest model.revision source w.projection) (hsource : PointInTime e.searchSource)
    (hsame : ∀ n, e.source n = source) (limit : ℕ) :
    (synchronize e digest model limit w).2.projection = w.projection := by
  have hpresent : ∀ {w' : World ν} {yielded pit after},
      Begun e.searchSource (e.source w'.requests) yielded pit after → ∀ hit ∈ yielded.flatten,
      source.find hit.id = some hit.source := fun hbegun hit hhit ↦ by
    have hfind := hsource.present hbegun hit hhit
    rwa [hsame] at hfind
  have hkeeps : Keeps (Holds (· = w.projection)) (synchronize e digest model limit) := by
    refine keeps_bind (keeps_scan hpresent (fun updated hits hhits ↦ ?_) limit 0) fun updated ↦
      keeps_scan (R := fun _ ↦ True) (fun _ _ _ ↦ trivial) (fun updated hits _ ↦ ?_) limit updated
    · exact keeps_updatePage_current (fun hit hhit ↦ h.current _ _ (hhits hit hhit)) updated
    · refine keeps_deletePage (fun n id hnone p hp ↦ ?_) updated hits
      rw [hsame] at hnone
      rw [hp, Index.erase_of_find (h.gone id hnone)]
  exact hkeeps w rfl

/-- **The projection converges.** Whatever earlier runs left: a run that ends, while the source
stays the same, leaves exactly one entry for each source document, with its name, description, id
and the current revision, and none besides, and another run then changes nothing. No run, however it
ends, deletes the entry of a document that is there. -/
theorem synchronize_converges (hdigest : Function.Injective digest) (hmodel : model.OnePerText)
    (hsource : PointInTime e.searchSource) (hprojection : PointInTime e.searchProjection)
    {w : World ν} (hleft : Left digest w.projection) (limit : ℕ) :
    (∀ (source : Index Document), (∀ n, e.source n = source) → ∀ updated w',
      synchronize e digest model limit w = (.ok updated, w') →
      (∀ id, (w'.projection.find id).isSome = (source.find id).isSome) ∧
        (∀ id document entry, source.find id = some document → w'.projection.find id = some entry →
          entry.canvasName.getD "" = document.canvasName.getD "" ∧
            entry.description.getD "" = document.description.getD "" ∧
            entry.canvasId = document.canvasId ∧ entry.modelRevision = model.revision) ∧
        ∀ (e' : Elasticsearch), (∀ n, e'.source n = source) → PointInTime e'.searchSource →
          ∀ limit' requests,
            (synchronize e' digest model limit' ⟨w'.projection, requests⟩).2.projection
              = w'.projection) ∧
      ∀ id, (∀ n, ((e.source n).find id).isSome) → (w.projection.find id).isSome →
        ((synchronize e digest model limit w).2.projection.find id).isSome := by
  refine ⟨fun source hsame updated w' h ↦ ?_, fun id hthere hentry ↦ ?_⟩
  · have hinLine := synchronize_inLine hmodel hsource hprojection hsame h
    have hconsistent : Consistent digest w'.projection := by
      have hleft' := Left.run hleft e model limit
      rw [h] at hleft'
      exact hleft'.consistent
    refine ⟨fun id ↦ ?_, fun id document entry hid hentry ↦
      hconsistent.shows hdigest hentry (hinLine.current id document hid),
      fun e' hsame' hsource' limit' requests ↦
        InLine.synchronize_eq (w := ⟨w'.projection, requests⟩) hinLine hsource' hsame' limit'⟩
    rcases hid : source.find id with _ | document
    · rw [hinLine.gone id hid]
      rfl
    · have hcurrent := hinLine.current id document hid
      rcases hfind : w'.projection.find id with _ | entry
      · rw [CurrentAt, hfind] at hcurrent
        exact absurd hcurrent (by simp)
      · rfl
  · refine keeps_synchronize (P := fun p : Index (Entry ν) ↦ (p.find id).isSome)
      (fun hit p vector updatedAt hp ↦ ?_) (fun n id' hnone p hp ↦ ?_) limit w hentry
    · dsimp only
      rw [Index.find_set]
      split_ifs
      · rfl
      · exact hp
    · have hne : id' ≠ id := by
        rintro rfl
        have hsome := hthere n
        rw [hnone] at hsome
        exact Bool.false_ne_true hsome
      rwa [Index.find_erase, if_neg hne]

/-! ### A run after one that broke off -/

/-- All documents on one page. -/
def onePage (_ : ℕ) (opened : Index α) (_ : String) (after : Option (List ℤ)) : Response α where
  pitId := none
  timedOut := false
  failedShards := 0
  hits := if after.isNone then opened.documents.map fun d ↦ ⟨d.1, d.2, [0]⟩ else []

theorem pointInTime_onePage : PointInTime (@onePage α) := by
  have hbegun : ∀ {opened : Index α} {yielded pit after}, Begun onePage opened yielded pit after →
      yielded = [] ∧ after = none ∨
        yielded = [opened.documents.map fun d ↦ ⟨d.1, d.2, [0]⟩] ∧ after.isNone = false := by
    intro opened yielded pit after h
    induction h with
    | start => exact .inl ⟨rfl, rfl⟩
    | page _ _ hhits ih =>
      rcases ih with ⟨rfl, rfl⟩ | ⟨-, hafter⟩
      · refine .inr ⟨rfl, ?_⟩
        rw [Option.isNone_map, Option.isNone_eq_false_iff, List.getLast?_isSome]
        exact hhits
      · simp [onePage, hafter] at hhits
  refine ⟨fun {opened yielded pit after} h ↦ ?_, fun {opened yielded pit after} h hit hhit ↦ ?_,
    fun {opened yielded pit after n} h _ _ hempty id value hid ↦ ?_⟩
  · rcases hbegun h with ⟨rfl, -⟩ | ⟨rfl, -⟩
    · exact List.nodup_nil
    · rw [List.flatten_singleton, List.map_map]
      exact opened.nodup
  · rcases hbegun h with ⟨rfl, -⟩ | ⟨rfl, -⟩
    · exact absurd hhit (by simp)
    · rw [List.flatten_singleton] at hhit
      obtain ⟨d, hd, rfl⟩ := List.mem_map.mp hhit
      exact Assoc.lookup_of_mem opened.nodup hd
  · have hmem := Assoc.mem_of_lookup hid
    rcases hbegun h with ⟨rfl, rfl⟩ | ⟨rfl, -⟩
    · rw [List.map_eq_nil_iff.mp hempty] at hmem
      exact absurd hmem List.not_mem_nil
    · exact ⟨_, by rw [List.flatten_singleton]; exact List.mem_map_of_mem hmem, rfl⟩

/-- Numbers for what is digested. -/
def contentCode (c : Content) : ℕ :=
  Encodable.encode (c.canvasName.toList.map Char.toNat, c.description.toList.map Char.toNat,
    c.canvasId, c.modelRevision.toList.map Char.toNat)

theorem contentCode_injective : Function.Injective contentCode := by
  rintro ⟨name, description, id, revision⟩ ⟨name', description', id', revision'⟩ h
  have hchars : Function.Injective (List.map Char.toNat) :=
    List.map_injective_iff.mpr fun _ _ ↦ Char.toNat_inj.mp
  have hcode := Encodable.encode_injective h
  simp only [Prod.mk.injEq] at hcode
  obtain ⟨hname, hdescription, rfl, hrevision⟩ := hcode
  rw [String.toList_inj.mp (hchars hname), String.toList_inj.mp (hchars hdescription),
    String.toList_inj.mp (hchars hrevision)]

/-- The actual digests of some canvases. -/
def knownDigests : List (Content × String) :=
  [(⟨"Agora", "", some 7, "e5"⟩,
      "7a9814a154867dafdb2ffbc85db0e54f0191462263f53f3ee5425189e527e69b"),
    (⟨"Stoa", "", some 9, "e5"⟩,
      "49deea30d6186ceead19a55f186ef4cbf8f5f345083be15cba810d9333203ebe"),
    (⟨"Forum", "", some 7, "e5"⟩,
      "1b17bd553f297639c6059a3a205af977142b95aa405d55267f3c643f9ffb83f7"),
    (⟨"Agora", "", some 8, "e5"⟩,
      "d37f36ec5ace325ea9fd1735ecf6597f647ca2a532ebc371c5064c6986d9a3aa")]

/-- A digest without collisions. -/
def sampleDigest (c : Content) : String :=
  match knownDigests.lookup c with
  | some digest => digest
  | none => String.ofList (List.replicate (contentCode c) '#')

theorem knownDigests_inj :
    ∀ e ∈ knownDigests, ∀ e' ∈ knownDigests, e.2 = e'.2 → e.1 = e'.1 := by
  decide +kernel

theorem knownDigests_ne {c : Content} {digest : String} (h : (c, digest) ∈ knownDigests) (n : ℕ) :
    digest ≠ String.ofList (List.replicate n '#') := by
  have hhex : ∀ e ∈ knownDigests, '#' ∉ e.2.toList ∧ e.2.toList ≠ [] := by decide +kernel
  rintro rfl
  obtain ⟨hmem, hne⟩ := hhex _ h
  rw [String.toList_ofList] at hmem hne
  exact hmem (List.mem_replicate.mpr ⟨fun hzero ↦ hne (by rw [hzero]; rfl), rfl⟩)

theorem sampleDigest_injective : Function.Injective sampleDigest := by
  intro c c' h
  rw [sampleDigest, sampleDigest] at h
  rcases hc : knownDigests.lookup c with _ | digest
  · rcases hc' : knownDigests.lookup c' with _ | digest'
    · rw [hc, hc'] at h
      have hlength := congrArg (fun s : String ↦ s.toList.length) h
      simp only [String.toList_ofList, List.length_replicate] at hlength
      exact contentCode_injective hlength
    · rw [hc, hc'] at h
      exact absurd h.symm (knownDigests_ne (Assoc.mem_of_lookup hc') _)
  · rcases hc' : knownDigests.lookup c' with _ | digest'
    · rw [hc, hc'] at h
      exact absurd h (knownDigests_ne (Assoc.mem_of_lookup hc) _)
    · rw [hc, hc'] at h
      exact knownDigests_inj _ (Assoc.mem_of_lookup hc) _ (Assoc.mem_of_lookup hc') h

/-! A run that breaks off leaves two entries. Then one document is renamed, one is deleted, and one
is new. -/

def earlierSource : Index Document :=
  (Index.empty.set "7" ⟨some "Agora", some 7, none⟩).set "9" ⟨some "Stoa", some 9, none⟩

def laterSource : Index Document :=
  (Index.empty.set "7" ⟨some "Forum", some 7, none⟩).set "8" ⟨some "Agora", some 8, none⟩

/-- An index that answers all requests but one. -/
def serving (source : Index Document) (lost : Option ℕ) : Elasticsearch where
  source _ := source
  outcome n := if lost = some n then .lost else .answered
  unavailable _ _ := false
  pit _ := "pit"
  searchSource := onePage
  searchProjection := onePage
  time n := n

def sampleModel : E5 Unit := ⟨"e5", fun _ texts ↦ .ok (texts.map fun _ ↦ ())⟩

def brokenOff : Checked ℕ × World Unit :=
  synchronize (serving earlierSource (some 4)) sampleDigest sampleModel 2 ⟨.empty, 0⟩

/-- The next run sets both right. -/
theorem synchronize_converges_later :
    brokenOff.1.toOption = none ∧
    ∃ w', synchronize (serving laterSource none) sampleDigest sampleModel 2
        ⟨brokenOff.2.projection, 0⟩ = (.ok 2, w') ∧
      (brokenOff.2.projection.find "9").isSome ∧
      (∀ id, (w'.projection.find id).isSome = (laterSource.find id).isSome) ∧
      (synchronize (serving laterSource none) sampleDigest sampleModel 2
        ⟨w'.projection, 0⟩).2.projection = w'.projection := by
  have hmodel : sampleModel.OnePerText := fun _ texts vectors h ↦ by
    rw [← Except.ok.inj h, List.length_map]
  have hrun : (synchronize (serving laterSource none) sampleDigest sampleModel 2
      ⟨brokenOff.2.projection, 0⟩).1 = .ok 2 := by decide +kernel
  have hleft : Left sampleDigest brokenOff.2.projection :=
    .run (w := ⟨.empty, 0⟩) .empty (serving earlierSource (some 4)) sampleModel 2
  have h := (synchronize_converges sampleDigest_injective hmodel (e := serving laterSource none)
    pointInTime_onePage pointInTime_onePage (w := ⟨brokenOff.2.projection, 0⟩) hleft 2).1
      laterSource (fun _ ↦ rfl) 2 _ (Prod.ext hrun rfl)
  exact ⟨by decide +kernel, _, Prod.ext hrun rfl, by decide +kernel, h.1,
    h.2.2 (serving laterSource none) (fun _ ↦ rfl) pointInTime_onePage 2 0⟩

end Search

end Agora
