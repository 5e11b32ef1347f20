import Esp32Base.Cfg.Command
import Esp32Base.Http.Web
import Esp32Base.Lib.Subst

/-!
# Http.Pages — the pages in the flash (pfWebServ_Callback in trans_data.c)

A page is read raw: it may end with a NUL, with erased `0xFF` bytes, or not at all. The placeholders of the info page
are replaced in place, as if the page were a C string of any length, and its end is looked for behind that.

* `sendPage_iff`: when the page that is sent as it is has an end.
* `replaceAll_iff`: when the replacements keep to the buffer.
* `infoPage_body`: what is sent then.
* `pages_served_iff`: when both pages are served.
-/

namespace Esp32Base

open Lib Lib.Buf Lib.CText

/-- The page up to the first `0x00` or `0xFF`. -/
def template (page : Bytes) : Bytes := page.takeWhile fun c => c ≠ 0 ∧ c ≠ 0xFF

/-- The placeholders with their values; `none` when one of the values is a string that the record does not end. -/
def shown : List (Bytes × Option Bytes) → Option (List (Bytes × Bytes))
  | [] => some []
  | (pSrc, pDst) :: l => pDst.bind fun pDst => (shown l).map ((pSrc, pDst) :: ·)

/-- No value has the text of a placeholder. -/
def NoPlaceholder (vals : List (Bytes × Bytes)) : Prop := ∀ p ∈ vals, ∀ q ∈ vals, ¬ q.1 <:+: p.2

/-- Every text on the way of the replacements fits the buffer. -/
def SubstFits : List (Bytes × Bytes) → Bytes → Prop
  | [], _ => True
  | (pSrc, pDst) :: l, text =>
    (replaceFirst pSrc pDst text).length < webPageSize ∧ SubstFits l (replaceFirst pSrc pDst text)

instance SubstFits.decidable : ∀ (vals : List (Bytes × Bytes)) (text : Bytes), Decidable (SubstFits vals text)
  | [], _ => isTrue trivial
  | (pSrc, pDst) :: l, text =>
    haveI := SubstFits.decidable l (replaceFirst pSrc pDst text)
    inferInstanceAs (Decidable (_ ∧ _))

/-- Both pages are served inside the page buffer, and the info page is its template with the first occurrence of each
placeholder replaced by its value, where that fits. -/
structure PagesServed {σ : Type} (spi : SpiFlash σ) (s : σ) (page2 : Bytes) (r : TagCfgData) : Prop where
  index : (indexPage spi s).isSome
  info : (infoPage spi s).isSome
  body : ∀ vals, shown (placeholders r) = some vals → NoPlaceholder vals →
    (replaceEach vals 0 (template page2)).length < webPageSize →
    infoPage spi s = some [.webSendHeader (replaceEach vals 0 (template page2)).length,
      .webSendClient (replaceEach vals 0 (template page2))]

/-- When both pages keep to the buffer: the index page has an end; the info page has a NUL, all values end in the
record, and every text on the way from the bytes in front of that NUL fits. -/
structure PagesFit (page1 page2 : Bytes) (r : TagCfgData) : Prop where
  index : ∃ c ∈ page1, c = 0x00 ∨ c = 0xFF
  nul : 0 ∈ page2
  values : ∃ vals, shown (placeholders r) = some vals ∧ SubstFits vals (page2.takeWhile (· ≠ 0))

/-- No replacement makes up a placeholder that is still to come. -/
def ValuesApart (page2 : Bytes) (r : TagCfgData) : Prop :=
  ∀ vals, shown (placeholders r) = some vals → NoPlaceholder vals → MakesNone vals (template page2)

/-- No value that is put in has a `0xFF`, which would end the page. -/
def ValuesUnended (page2 : Bytes) (r : TagCfgData) : Prop :=
  ∀ vals, shown (placeholders r) = some vals → NoPlaceholder vals → BringsNo 0xFF vals (template page2)

/-! ## Sending -/

/-- **A page is sent** iff it has an end. -/
theorem sendPage_iff (page : Bytes) : (sendPage page).isSome ↔ ∃ c ∈ page, c = 0x00 ∨ c = 0xFF := by
  have hlt : page.findIdx (fun c => c == 0x00 || c == 0xFF) < page.length ↔ ∃ c ∈ page, c = 0x00 ∨ c = 0xFF := by
    rw [List.findIdx_lt_length]
    simp only [Bool.or_eq_true, beq_iff_eq]
  rw [← hlt]
  unfold sendPage
  constructor
  · intro h
    obtain ⟨out, hout⟩ := Option.isSome_iff_exists.mp h
    obtain ⟨m, hst, -⟩ := Option.map_eq_some_iff.mp hout
    exact (store_eq_some hst).1
  · intro h
    have hst : store page (page.findIdx fun c => c == 0x00 || c == 0xFF) [0] = some _ := store_of_le h
    dsimp only
    rw [hst]
    rfl

/-- Behind a NUL nothing is sent, nor behind a `0xFF` in front of it. -/
theorem sendPage_cstr {page text : Bytes} (h : cstr page = some text) :
    sendPage page = some [.webSendHeader (text.takeWhile (· ≠ 0xFF)).length,
      .webSendClient (text.takeWhile (· ≠ 0xFF))] := by
  obtain ⟨rest, rfl, h0⟩ := cstr_eq_some.mp h
  -- the text with the `0xFF`, or with the NUL, behind what is sent
  obtain ⟨c, z, hsplit, hc⟩ : ∃ c z, text ++ 0 :: rest = text.takeWhile (· ≠ 0xFF) ++ c :: z ∧ (c = 0x00 ∨ c = 0xFF) := by
    by_cases hff : 0xFF ∈ text
    · obtain ⟨a, b, rfl, ha⟩ := List.eq_append_cons_of_mem hff
      refine ⟨0xFF, b ++ 0 :: rest, ?_, Or.inr rfl⟩
      rw [takeWhile_ne ha, List.append_assoc, List.cons_append]
    · refine ⟨0, rest, ?_, Or.inl rfl⟩
      rw [takeWhile_self hff]
  have hidx : (text ++ 0 :: rest).findIdx (fun c => c == 0x00 || c == 0xFF) = (text.takeWhile (· ≠ 0xFF)).length := by
    have hbefore : ∀ b ∈ text.takeWhile (· ≠ 0xFF), (b == 0x00 || b == 0xFF) = false := by
      intro b hb
      have hne := List.mem_takeWhile_imp hb
      have hb0 : b ≠ 0 := ne_of_mem_of_not_mem ((List.takeWhile_prefix _).subset hb) h0
      simpa [hb0] using hne
    have hc' : (c == 0x00 || c == 0xFF) = true := by
      rcases hc with rfl | rfl <;> rfl
    rw [hsplit, List.findIdx_append, List.findIdx_eq_length_of_false hbefore, if_neg (lt_irrefl _), List.findIdx_cons, hc']
    exact Nat.zero_add _
  unfold sendPage
  dsimp only
  rw [hidx, hsplit, store_append (by simp), Option.map_some, List.append_assoc, List.take_left]

/-! ## Replacing -/

section Replace

variable {m t pSrc pDst : Bytes}

/-- One replacement keeps to the buffer iff the text fits. -/
theorem replace_str_fits (hm : m.length = webPageSize) (ht : cstr m = some t) (h0 : 0 ∉ pDst)
    (hfit : (replaceFirst pSrc pDst t).length < webPageSize) :
    ∃ ret m', replace_str m pSrc pDst = some (ret, m') ∧ m'.length = webPageSize ∧
      cstr m' = some (replaceFirst pSrc pDst t) := by
  obtain ⟨rest, hsplit, hnul⟩ := cstr_eq_some.mp ht
  have hno : 0 ∉ replaceFirst pSrc pDst t := replaceFirst_notMem hnul h0
  unfold replace_str
  rw [ht, Option.bind_some]
  cases hs : strstr pSrc t with
  | none => exact ⟨0, m, rfl, hm, by rw [ht, replaceFirst, hs]⟩
  | some p =>
    have htext : replaceFirst pSrc pDst t = t.take (t.length - p.length) ++ pDst ++ p.drop pSrc.length := by
      rw [replaceFirst, hs]
    obtain ⟨m', hcpy, hstr⟩ := exists_strcpy hno (hfit.trans_eq hm.symm)
    refine ⟨1, m', ?_, (store_length hcpy).trans hm, hstr⟩
    dsimp only
    rw [← htext, hcpy]
    rfl

theorem replace_str_le (hm : m.length = webPageSize) (ht : cstr m = some t) {r : ℕ × Bytes}
    (h : replace_str m pSrc pDst = some r) : (replaceFirst pSrc pDst t).length < webPageSize := by
  obtain ⟨rest, hsplit, -⟩ := cstr_eq_some.mp ht
  unfold replace_str at h
  rw [ht, Option.bind_some] at h
  unfold replaceFirst
  cases hs : strstr pSrc t with
  | none =>
    rw [hsplit, List.length_append, List.length_cons] at hm
    exact (by omega : t.length < webPageSize)
  | some p =>
    rw [hs] at h
    obtain ⟨m', hcpy, -⟩ := Option.map_eq_some_iff.mp h
    rw [← hm]
    exact strcpy_lt hcpy

/-- **The replacements** keep to the buffer iff every text on the way fits. -/
theorem replaceAll_iff : ∀ {l : List (Bytes × Option Bytes)} {m t : Bytes}, m.length = webPageSize →
    cstr m = some t → (∀ p ∈ l, ∀ d, p.2 = some d → 0 ∉ d) →
    ((∃ m', replaceAll l m = some m') ↔ ∃ vals, shown l = some vals ∧ SubstFits vals t)
  | [], m, t, _, _, _ => ⟨fun _ => ⟨[], rfl, trivial⟩, fun _ => ⟨m, rfl⟩⟩
  | (pSrc, none) :: l, m, t, _, _, _ => by
    constructor
    · rintro ⟨m', h⟩
      cases h
    · rintro ⟨vals, h, -⟩
      cases h
  | (pSrc, some d) :: l, m, t, hm, ht, hl => by
    rw [List.forall_mem_cons] at hl
    constructor
    · rintro ⟨m', h⟩
      rw [replaceAll, Option.bind_some] at h
      obtain ⟨⟨ret, m₁⟩, hrep, h⟩ := Option.bind_eq_some_iff.mp h
      have hfit := replace_str_le hm ht hrep
      obtain ⟨ret', m₁', hrep', hm₁, ht₁⟩ := replace_str_fits hm ht (hl.1 d rfl) hfit
      obtain ⟨-, rfl⟩ := Prod.mk.inj (Option.some.inj (hrep.symm.trans hrep'))
      obtain ⟨vals, hvals, hfits⟩ := (replaceAll_iff hm₁ ht₁ hl.2).mp ⟨m', h⟩
      exact ⟨(pSrc, d) :: vals, by rw [shown, Option.bind_some, hvals]; rfl, hfit, hfits⟩
    · rintro ⟨_, hvals', hfits⟩
      rw [shown, Option.bind_some] at hvals'
      obtain ⟨vals, hvals, rfl⟩ := Option.map_eq_some_iff.mp hvals'
      obtain ⟨ret, m₁, hrep, hm₁, ht₁⟩ := replace_str_fits hm ht (hl.1 d rfl) hfits.1
      obtain ⟨m', h⟩ := (replaceAll_iff hm₁ ht₁ hl.2).mpr ⟨vals, hvals, hfits.2⟩
      exact ⟨m', by rw [replaceAll, Option.bind_some, hrep, Option.bind_some, h]⟩

/-- What they leave. -/
theorem replaceAll_cstr : ∀ {l : List (Bytes × Option Bytes)} {vals : List (Bytes × Bytes)} {m m' t : Bytes},
    m.length = webPageSize → cstr m = some t → (∀ p ∈ l, ∀ d, p.2 = some d → 0 ∉ d) → shown l = some vals →
    replaceAll l m = some m' → cstr m' = some (substitute vals t)
  | [], vals, m, m', t, _, ht, _, hvals, h => by
    obtain rfl := Option.some.inj hvals
    obtain rfl := Option.some.inj h
    exact ht
  | (pSrc, none) :: l, vals, m, m', t, _, _, _, hvals, _ => by cases hvals
  | (pSrc, some d) :: l, _, m, m', t, hm, ht, hl, hvals', h => by
    rw [List.forall_mem_cons] at hl
    rw [shown, Option.bind_some] at hvals'
    rw [replaceAll, Option.bind_some] at h
    obtain ⟨vals, hvals, rfl⟩ := Option.map_eq_some_iff.mp hvals'
    obtain ⟨⟨ret, m₁⟩, hrep, h⟩ := Option.bind_eq_some_iff.mp h
    obtain ⟨ret', m₁', hrep', hm₁, ht₁⟩ := replace_str_fits hm ht (hl.1 d rfl) (replace_str_le hm ht hrep)
    obtain ⟨-, rfl⟩ := Prod.mk.inj (Option.some.inj (hrep.symm.trans hrep'))
    rw [substitute]
    exact replaceAll_cstr hm₁ ht₁ hl.2 hvals h

end Replace

theorem shown_mem : ∀ {l : List (Bytes × Option Bytes)} {vals : List (Bytes × Bytes)}, shown l = some vals →
    ∀ p ∈ vals, (p.1, some p.2) ∈ l
  | [], vals, h, p, hp => by
    obtain rfl := Option.some.inj h
    cases hp
  | (pSrc, none) :: l, vals, h, p, hp => by cases h
  | (pSrc, some d) :: l, _, h, p, hp => by
    rw [shown, Option.bind_some] at h
    obtain ⟨vals, hvals, rfl⟩ := Option.map_eq_some_iff.mp h
    rcases List.mem_cons.mp hp with rfl | hp
    · exact List.mem_cons_self
    · exact List.mem_cons_of_mem _ (shown_mem hvals p hp)

/-- Texts of the record are C strings and printed numbers. -/
theorem placeholders_noNul (r : TagCfgData) : ∀ p ∈ placeholders r, ∀ d, p.2 = some d → 0 ∉ d := by
  have htext : ∀ f d, r.text f = some d → 0 ∉ d := fun f d h => by
    obtain ⟨rest, -, h0⟩ := cstr_eq_some.mp h
    exact h0
  have hint : ∀ f d, r.itoa f = some d → 0 ∉ d := fun f d h => Option.some.inj h ▸ zero_notMem_printInt _
  unfold placeholders
  simp only [List.forall_mem_cons]
  exact ⟨htext _, hint _, htext _, htext _, htext _, hint _, htext _, htext _, htext _, hint _,
    fun p hp => absurd hp List.not_mem_nil⟩

theorem placeholders_ascii (r : TagCfgData) : ∀ p ∈ placeholders r, 0xFF ∉ p.1 := by
  unfold placeholders
  simp only [List.forall_mem_cons]
  refine ⟨?_, ?_, ?_, ?_, ?_, ?_, ?_, ?_, ?_, ?_, fun p hp => absurd hp List.not_mem_nil⟩ <;> decide +kernel

theorem shown_ascii {r : TagCfgData} {vals : List (Bytes × Bytes)} (h : shown (placeholders r) = some vals) :
    ∀ p ∈ vals, 0xFF ∉ p.1 := by
  intro p hp
  exact placeholders_ascii r _ (shown_mem h p hp)

theorem shown_keys : ∀ {l : List (Bytes × Option Bytes)} {vals : List (Bytes × Bytes)}, shown l = some vals →
    vals.map Prod.fst = l.map Prod.fst
  | [], vals, h => by
    obtain rfl := Option.some.inj h
    rfl
  | (pSrc, none) :: l, vals, h => by cases h
  | (pSrc, some d) :: l, _, h => by
    rw [shown, Option.bind_some] at h
    obtain ⟨vals, hvals, rfl⟩ := Option.map_eq_some_iff.mp h
    exact congrArg (pSrc :: ·) (shown_keys hvals)

/-- Placeholders start with a brace and cannot overlap. -/
theorem shown_apart {r : TagCfgData} {vals : List (Bytes × Bytes)} (h : shown (placeholders r) = some vals) :
    Apart 123 vals := by
  have hkeys := shown_keys h
  constructor
  · intro p hp
    have hmem : p.1 ∈ (placeholders r).map Prod.fst := hkeys ▸ List.mem_map_of_mem hp
    have hall : ∀ k ∈ (placeholders r).map Prod.fst, k.head? = some 123 ∧ 123 ∉ k.tail := by
      simp only [placeholders, List.map_cons, List.map_nil]
      decide +kernel
    obtain ⟨hhead, htail⟩ := hall _ hmem
    exact ⟨p.1.tail, (List.cons_head?_tail hhead).symm, htail⟩
  · have hpair : ((placeholders r).map Prod.fst).Pairwise fun k k' => ¬ k <+: k' ∧ ¬ k' <+: k := by
      simp only [placeholders, List.map_cons, List.map_nil]
      decide +kernel
    rw [← hkeys] at hpair
    exact List.pairwise_map.mp hpair

theorem SubstFits.length_lt : ∀ {vals : List (Bytes × Bytes)} {t : Bytes}, t.length < webPageSize → SubstFits vals t →
    (substitute vals t).length < webPageSize
  | [], _, ht, _ => ht
  | (pSrc, pDst) :: vals, t, _, h => by
    rw [substitute]
    exact SubstFits.length_lt h.1 h.2

theorem template_ff (page : Bytes) : 0xFF ∉ template page := by
  intro h
  have := List.mem_takeWhile_imp h
  simp at this

/-- The bytes behind the end of the template make no difference in front of it. -/
theorem substitute_template {vals : List (Bytes × Bytes)} (hvals : ∀ p ∈ vals, 0xFF ∉ p.1) (page : Bytes) :
    substitute vals (template page) <+: substitute vals (page.takeWhile (· ≠ 0)) ∧
      (substitute vals (page.takeWhile (· ≠ 0))).takeWhile (· ≠ 0xFF) =
        (substitute vals (template page)).takeWhile (· ≠ 0xFF) := by
  have htemplate : template page = (page.takeWhile (· ≠ 0)).takeWhile (· ≠ 0xFF) := by
    rw [template, List.takeWhile_takeWhile]
    congr 1
    funext c
    simp [and_comm]
  rw [htemplate]
  by_cases hff : 0xFF ∈ page.takeWhile (· ≠ 0)
  · obtain ⟨a, b, hsplit, ha⟩ := List.eq_append_cons_of_mem hff
    have htake : (a ++ 0xFF :: b).takeWhile (· ≠ 0xFF) = a := takeWhile_ne ha b
    obtain ⟨b', hb'⟩ := substitute_append hvals a b
    rw [hsplit, htake, hb']
    refine ⟨List.prefix_append _ _, ?_⟩
    rw [List.takeWhile_append]
    split_ifs with hall
    · rw [List.takeWhile_cons, if_neg (by simp), List.append_nil, List.takeWhile_eq_self_iff.mpr]
      exact List.takeWhile_eq_self_iff.mp ((List.takeWhile_prefix _).eq_of_length hall)
    · rfl
  · rw [takeWhile_self hff]
    exact ⟨List.prefix_refl _, rfl⟩

/-! ## Serving -/

section Serve

variable {σ : Type} {spi : SpiFlash σ} {s : σ} {page2 : Bytes} {r : TagCfgData}

theorem infoPage_eq (h2 : get_spi_flash_binary_data spi webPageSize SECTOR_WEBPAGE_2 s = some page2)
    (hr : readCfg spi s = some r) : infoPage spi s = (replaceAll (placeholders r) page2).bind sendPage := by
  rw [infoPage, h2]
  dsimp only
  rw [hr]

/-- **The info page** keeps to the buffer iff its page has a NUL and every text on the way fits. -/
theorem infoPage_iff (h2 : get_spi_flash_binary_data spi webPageSize SECTOR_WEBPAGE_2 s = some page2)
    (hl2 : page2.length = webPageSize) (hr : readCfg spi s = some r) :
    (infoPage spi s).isSome ↔
      0 ∈ page2 ∧ ∃ vals, shown (placeholders r) = some vals ∧ SubstFits vals (page2.takeWhile (· ≠ 0)) := by
  rw [infoPage_eq h2 hr]
  by_cases h0 : 0 ∈ page2
  · have hstr : cstr page2 = some (page2.takeWhile (· ≠ 0)) := if_pos h0
    rw [and_iff_right h0, ← replaceAll_iff hl2 hstr (placeholders_noNul r)]
    constructor
    · intro h
      obtain ⟨out, hout⟩ := Option.isSome_iff_exists.mp h
      obtain ⟨m', hm', -⟩ := Option.bind_eq_some_iff.mp hout
      exact ⟨m', hm'⟩
    · rintro ⟨m', hm'⟩
      obtain ⟨vals, hvals, -⟩ := (replaceAll_iff hl2 hstr (placeholders_noNul r)).mp ⟨m', hm'⟩
      rw [hm', Option.bind_some, sendPage_cstr (replaceAll_cstr hl2 hstr (placeholders_noNul r) hvals hm')]
      rfl
  · -- the first replacement runs off the buffer
    have hstr : cstr page2 = none := if_neg h0
    refine ⟨fun h => ?_, fun h => absurd h.1 h0⟩
    obtain ⟨out, hout⟩ := Option.isSome_iff_exists.mp h
    obtain ⟨m', hm', -⟩ := Option.bind_eq_some_iff.mp hout
    obtain ⟨d, -, hm'⟩ := Option.bind_eq_some_iff.mp hm'
    obtain ⟨q, hrep, -⟩ := Option.bind_eq_some_iff.mp hm'
    rw [replace_str, hstr] at hrep
    cases hrep

/-- What is sent: the template with the placeholders replaced, up to a `0xFF` that a value brought in. -/
theorem infoPage_body (h2 : get_spi_flash_binary_data spi webPageSize SECTOR_WEBPAGE_2 s = some page2)
    (hl2 : page2.length = webPageSize) (hr : readCfg spi s = some r) (hsome : (infoPage spi s).isSome)
    {vals : List (Bytes × Bytes)} (hvals : shown (placeholders r) = some vals) :
    infoPage spi s = some [.webSendHeader ((substitute vals (template page2)).takeWhile (· ≠ 0xFF)).length,
      .webSendClient ((substitute vals (template page2)).takeWhile (· ≠ 0xFF))] := by
  obtain ⟨h0, vals', hvals', hfits⟩ := (infoPage_iff h2 hl2 hr).mp hsome
  have hstr : cstr page2 = some (page2.takeWhile (· ≠ 0)) := if_pos h0
  obtain ⟨m', hm'⟩ := (replaceAll_iff hl2 hstr (placeholders_noNul r)).mpr ⟨vals', hvals', hfits⟩
  rw [infoPage_eq h2 hr, hm', Option.bind_some,
    sendPage_cstr (replaceAll_cstr hl2 hstr (placeholders_noNul r) hvals hm'), (substitute_template (shown_ascii hvals) page2).2]

theorem pages_fit_iff {page1 : Bytes} (h1 : get_spi_flash_binary_data spi webPageSize SECTOR_WEBPAGE_1 s = some page1)
    (h2 : get_spi_flash_binary_data spi webPageSize SECTOR_WEBPAGE_2 s = some page2)
    (hl2 : page2.length = webPageSize) (hr : readCfg spi s = some r) :
    (indexPage spi s).isSome ∧ (infoPage spi s).isSome ↔ PagesFit page1 page2 r := by
  have hindex : (indexPage spi s).isSome ↔ ∃ c ∈ page1, c = 0x00 ∨ c = 0xFF := by
    rw [indexPage, h1]
    exact sendPage_iff page1
  rw [hindex, infoPage_iff h2 hl2 hr]
  exact ⟨fun ⟨hend, h0, hvals⟩ => ⟨hend, h0, hvals⟩, fun ⟨hend, h0, hvals⟩ => ⟨hend, h0, hvals⟩⟩

/-- **Both pages** keep to the buffer iff they have their ends and the replacements fit. Then, unless a value and what
stands around it make up a placeholder, the info page is as it should be iff no value ends it. -/
theorem pages_served_iff {page1 : Bytes} (h1 : get_spi_flash_binary_data spi webPageSize SECTOR_WEBPAGE_1 s = some page1)
    (h2 : get_spi_flash_binary_data spi webPageSize SECTOR_WEBPAGE_2 s = some page2)
    (hl2 : page2.length = webPageSize) (hr : readCfg spi s = some r) :
    ((indexPage spi s).isSome ∧ (infoPage spi s).isSome ↔ PagesFit page1 page2 r) ∧
      (ValuesApart page2 r →
        (PagesServed spi s page2 r ↔ PagesFit page1 page2 r ∧ ValuesUnended page2 r)) := by
  have hfit := pages_fit_iff h1 h2 hl2 hr
  refine ⟨hfit, fun hapart => ?_⟩
  have hsame : ∀ vals, shown (placeholders r) = some vals → NoPlaceholder vals →
      substitute vals (template page2) = replaceEach vals 0 (template page2) := fun vals hvals hno =>
    substitute_eq (shown_apart hvals) (hapart vals hvals hno)
  constructor
  · intro h
    refine ⟨hfit.mp ⟨h.index, h.info⟩, fun vals hvals hno => ?_⟩
    obtain ⟨h0, vals', hvals', hfits⟩ := (infoPage_iff h2 hl2 hr).mp h.info
    obtain rfl := Option.some.inj (hvals.symm.trans hvals')
    have hlen : (page2.takeWhile (· ≠ 0)).length < webPageSize := hl2 ▸ cstr_length_lt (if_pos h0)
    have hshort := (substitute_template (shown_ascii hvals) page2).1.length_le.trans_lt (hfits.length_lt hlen)
    have hbody := h.body vals hvals hno (hsame vals hvals hno ▸ hshort)
    rw [← hsame vals hvals hno, infoPage_body h2 hl2 hr h.info hvals] at hbody
    -- the two bodies agree, so no `0xFF` has ended the page
    obtain ⟨-, hsent⟩ := List.cons.inj (Option.some.inj hbody)
    have hall := WebOut.webSendClient.inj (List.cons.inj hsent).1
    refine (notMem_substitute_iff (shown_ascii hvals) (template_ff page2)).mp fun hmem => ?_
    have := List.takeWhile_eq_self_iff.mp hall 0xFF hmem
    simp at this
  · rintro ⟨hkept, hclean⟩
    obtain ⟨hindex, hinfo⟩ := hfit.mpr hkept
    refine ⟨hindex, hinfo, fun vals hvals hno _ => ?_⟩
    have hbody := infoPage_body h2 hl2 hr hinfo hvals
    have hnone := (notMem_substitute_iff (shown_ascii hvals) (template_ff page2)).mpr (hclean vals hvals hno)
    have hall : (substitute vals (template page2)).takeWhile (· ≠ 0xFF) = substitute vals (template page2) :=
      takeWhile_self hnone
    rw [hall, hsame vals hvals hno] at hbody
    exact hbody

end Serve

/-- The bytes from `addr` on. -/
def chipBytes (s : ℕ → UInt8) (addr n : ℕ) : Bytes := (List.range n).map fun i => s (addr + i)

theorem chipBytes_length (s : ℕ → UInt8) (addr n : ℕ) : (chipBytes s addr n).length = n := by
  rw [chipBytes, List.length_map, List.length_range]

theorem read_norFlash (s : ℕ → UInt8) (n sector : ℕ) :
    get_spi_flash_binary_data norFlash n sector s = some (chipBytes s (sector * secSize) n) := rfl

/-- The record on the chip. -/
def chipCfg (s : ℕ → UInt8) : TagCfgData :=
  ⟨chipBytes s (SECTOR_CFG_DATA * secSize) cfgSize, chipBytes_length s _ _⟩

theorem readCfg_norFlash (s : ℕ → UInt8) : readCfg norFlash s = some (chipCfg s) := by
  unfold readCfg
  rw [read_norFlash, Option.bind_some, dif_pos (chipBytes_length s _ _)]
  rfl

theorem chipBytes_append (s : ℕ → UInt8) (addr m n : ℕ) :
    chipBytes s addr (m + n) = chipBytes s addr m ++ chipBytes s (addr + m) n := by
  unfold chipBytes
  rw [List.range_add, List.map_append, List.map_map]
  simp only [Function.comp_def, Nat.add_assoc]

/-- A page with a broker in its record. -/
def brokerPage : Bytes := ascii "mqtt \x7bmqttip\x7d:\x7bmqttport\x7d"

def brokerRecord : Bytes :=
  List.replicate 392 0 ++ ascii "10.0.0.9" ++ List.replicate 120 0 ++ le32 1883 ++ List.replicate 192 0

/-- The record, a short index page in erased sectors, and the page with its NUL. -/
def brokerChip : ℕ → UInt8 :=
  (write_spi_flash_data norFlash (brokerPage ++ [0]) SECTOR_WEBPAGE_2
    (write_spi_flash_data norFlash (ascii "index") SECTOR_WEBPAGE_1
      (write_spi_flash_data norFlash brokerRecord SECTOR_CFG_DATA fun _ => 0).2).2).2

def brokerVals : List (Bytes × Bytes) :=
  [(ascii "\x7bmqttip\x7d", ascii "10.0.0.9"), (ascii "\x7bmqttport\x7d", ascii "1883"), (ascii "\x7bmqttcid\x7d", []),
    (ascii "\x7bmqttuser\x7d", []), (ascii "\x7bmqttpasswd\x7d", []), (ascii "\x7buart1brt\x7d", ascii "0"),
    (ascii "\x7bdevuuid\x7d", []), (ascii "\x7bdevname\x7d", []), (ascii "\x7bdevflag\x7d", []),
    (ascii "\x7btcpserv1\x7d", ascii "0")]

theorem brokerVals_shown : shown (placeholders (chipCfg brokerChip)) = some brokerVals := by decide +kernel

theorem brokerPage_split : ∃ rest, chipBytes brokerChip (SECTOR_WEBPAGE_2 * secSize) webPageSize = brokerPage ++ 0 :: rest := by
  have hfront : chipBytes brokerChip (SECTOR_WEBPAGE_2 * secSize) 25 = brokerPage ++ [0] := by decide +kernel
  have hsplit : chipBytes brokerChip (SECTOR_WEBPAGE_2 * secSize) webPageSize =
      chipBytes brokerChip (SECTOR_WEBPAGE_2 * secSize) 25 ++ chipBytes brokerChip (SECTOR_WEBPAGE_2 * secSize + 25) 8167 :=
    chipBytes_append _ _ 25 8167
  refine ⟨chipBytes brokerChip (SECTOR_WEBPAGE_2 * secSize + 25) 8167, ?_⟩
  rw [hsplit, hfront, List.append_assoc, List.singleton_append]

example : replaceEach brokerVals 0 brokerPage = ascii "mqtt 10.0.0.9:1883" := by decide +kernel

/-- The info page with its broker. -/
theorem pages_served_broker :
    PagesServed norFlash brokerChip (chipBytes brokerChip (SECTOR_WEBPAGE_2 * secSize) webPageSize)
      (chipCfg brokerChip) := by
  obtain ⟨rest, hpage⟩ := brokerPage_split
  have htemplate : template (chipBytes brokerChip (SECTOR_WEBPAGE_2 * secSize) webPageSize) = brokerPage := by
    rw [hpage]
    exact (List.takeWhile_append_of_pos (by decide +kernel)).trans (List.append_nil _)
  have htext : (chipBytes brokerChip (SECTOR_WEBPAGE_2 * secSize) webPageSize).takeWhile (· ≠ 0) = brokerPage := by
    rw [hpage]
    exact (List.takeWhile_append_of_pos (by decide +kernel)).trans (List.append_nil _)
  have hindex : chipBytes brokerChip (SECTOR_WEBPAGE_1 * secSize) webPageSize =
      chipBytes brokerChip (SECTOR_WEBPAGE_1 * secSize) 6 ++ chipBytes brokerChip (SECTOR_WEBPAGE_1 * secSize + 6) 8186 :=
    chipBytes_append _ _ 6 8186
  refine ((pages_served_iff (read_norFlash brokerChip _ _) (read_norFlash brokerChip _ _) (chipBytes_length brokerChip _ _)
    (readCfg_norFlash brokerChip)).2 ?_).mpr ⟨⟨?_, ?_, brokerVals, brokerVals_shown, ?_⟩, ?_⟩
  · intro vals hvals _
    obtain rfl := Option.some.inj (brokerVals_shown.symm.trans hvals)
    rw [htemplate]
    decide +kernel
  · rw [hindex]
    exact ⟨0xFF, List.mem_append_left _ (by decide +kernel), Or.inr rfl⟩
  · rw [hpage]
    exact List.mem_append_right _ List.mem_cons_self
  · rw [htext]
    decide +kernel
  · intro vals hvals _
    obtain rfl := Option.some.inj (brokerVals_shown.symm.trans hvals)
    rw [htemplate]
    decide +kernel

/-- A record of zeros, and an info page of one character in erased sectors. -/
def shortPageFlash : ℕ → UInt8 := fun a =>
  if a < SECTOR_WEBPAGE_1 * secSize then 0 else if a = SECTOR_WEBPAGE_2 * secSize then 104 else 0xFF

/-- The replacements run off the page. -/
theorem pages_overrun :
    ¬ ∀ (s : ℕ → UInt8) (page1 page2 : Bytes) (r : TagCfgData),
      get_spi_flash_binary_data norFlash webPageSize SECTOR_WEBPAGE_1 s = some page1 →
      get_spi_flash_binary_data norFlash webPageSize SECTOR_WEBPAGE_2 s = some page2 →
      page1.length = webPageSize → page2.length = webPageSize → readCfg norFlash s = some r →
      PagesServed norFlash s page2 r := by
  intro h
  have hpage := read_norFlash shortPageFlash webPageSize SECTOR_WEBPAGE_2
  have hcfg := readCfg_norFlash shortPageFlash
  have hserved := h shortPageFlash _ _ _ (read_norFlash shortPageFlash _ _) hpage (chipBytes_length _ _ _)
    (chipBytes_length _ _ _) hcfg
  obtain ⟨h0, -⟩ := (infoPage_iff hpage (chipBytes_length _ _ _) hcfg).mp hserved.info
  obtain ⟨i, -, hi⟩ := List.mem_map.mp h0
  unfold shortPageFlash at hi
  rw [if_neg (by unfold SECTOR_WEBPAGE_1 SECTOR_WEBPAGE_2 secSize; omega)] at hi
  by_cases hfirst : SECTOR_WEBPAGE_2 * secSize + i = SECTOR_WEBPAGE_2 * secSize
  · rw [if_pos hfirst] at hi
    exact absurd hi (by decide)
  · rw [if_neg hfirst] at hi
    exact absurd hi (by decide)

end Esp32Base
