import Mathlib.Data.List.GetD
import Esp32Base.Cfg.Flash
import Esp32Base.Cfg.Record

/-!
# Cfg.Store — what the flash keeps over many writes (spi_data.c, trans_data_a.c)

A write erases the sector that it starts in, and no other; what is longer runs into the next ones, where it can clear bits
only. The driver and the chip are a parameter; `SpiFlash.Nor` is what they are known to do.

* `flash_kept_iff`: what was written to a sector is read back iff no later write clears one of its bits.
* `relayState_kept`: so the state of the relays, while other sectors are written.
* `flash_text`: so it is for a text, which ends where the sector is erased.
-/

namespace Esp32Base

open Lib Lib.Buf

/-- Whether an address lies in a sector. -/
def InSector (sector a : ℕ) : Prop := sector * secSize ≤ a ∧ a < sector * secSize + secSize

/-- A chip of some sectors, with its bytes: inside of it every operation answers `ESP_OK`, erasing sets the bits of a
sector, and writing clears bits. -/
structure SpiFlash.Nor {σ : Type} (spi : SpiFlash σ) (sectors : ℕ) (cell : σ → ℕ → UInt8) : Prop where
  erase : ∀ {sector} s, sector < sectors → (spi.spi_flash_erase_sector sector s).1 = true ∧
    (∀ a, InSector sector a → cell (spi.spi_flash_erase_sector sector s).2 a = 0xFF) ∧
    ∀ a, ¬ InSector sector a → cell (spi.spi_flash_erase_sector sector s).2 a = cell s a
  write : ∀ {addr data} s, addr + data.length ≤ sectors * secSize → (spi.spi_flash_write addr data s).1 = true ∧
    (∀ i, i < data.length → cell (spi.spi_flash_write addr data s).2 (addr + i) = cell s (addr + i) &&& data.getD i 0xFF) ∧
    ∀ a, a < addr ∨ addr + data.length ≤ a → cell (spi.spi_flash_write addr data s).2 a = cell s a
  read : ∀ {addr n} s, addr + n ≤ sectors * secSize →
    spi.spi_flash_read addr n s = some ((List.range n).map fun i => cell s (addr + i))

theorem norFlash_nor (sectors : ℕ) : norFlash.Nor sectors fun s a => s a where
  erase _ _ := ⟨rfl, fun _ ha => if_pos ha, fun _ ha => if_neg ha⟩
  write {addr data} s _ := by
    refine ⟨rfl, fun i hi => ?_, fun a ha => if_neg (by omega)⟩
    change (if _ then s (addr + i) &&& data.getD (addr + i - addr) 0xFF else s (addr + i)) = _
    rw [if_pos ⟨Nat.le_add_right _ _, by omega⟩, Nat.add_sub_cancel_left]
  read _ _ := rfl

/-- A call of `write_spi_flash_data`. -/
structure FlashWrite where
  sector : ℕ
  data : Bytes

/-- A write that a chip has room for. -/
def FlashWrite.Inside (w : FlashWrite) (sectors : ℕ) : Prop :=
  w.sector < sectors ∧ w.sector * secSize + w.data.length ≤ sectors * secSize

instance (w : FlashWrite) (sectors : ℕ) : Decidable (w.Inside sectors) := inferInstanceAs (Decidable (_ ∧ _))

/-- Writes one after the other. -/
def flashRun {σ : Type} (spi : SpiFlash σ) (writes : List FlashWrite) (s : σ) : σ :=
  writes.foldl (fun s w => (write_spi_flash_data spi w.data w.sector s).2) s

/-- The bits that a write leaves at an address. -/
def FlashWrite.leaves (w : FlashWrite) (a : ℕ) : UInt8 :=
  if w.sector * secSize ≤ a ∧ a < w.sector * secSize + w.data.length then w.data.getD (a - w.sector * secSize) 0xFF else 0xFF

/-- The text in some sectors, and its length; the last byte is not read, and is 0. -/
def get_spi_flash_text_data {σ : Type} (spi : SpiFlash σ) (sector sector_count : ℕ) (s : σ) : Option (ℕ × Bytes) :=
  if sector_count = 0 then none
  else
    (spi.spi_flash_read (sector * secSize) (secSize * sector_count - 1) s).map fun m =>
      let ret := (m ++ [0]).findIdx fun c => c = 0x00 ∨ c = 0xFF
      (ret, (m ++ [0]).set ret 0)

/-! ## Relays -/

def SECTOR_CFG_DEV_STATUS : ℕ := 510

def saveRelayState {σ : Type} (spi : SpiFlash σ) (relayState : Bytes) (s : σ) : ℕ × σ :=
  write_spi_flash_data spi relayState SECTOR_CFG_DEV_STATUS s

/-- What is copied to `relayState`; none is the answer 1. -/
def readRelayState {σ : Type} (spi : SpiFlash σ) (len : ℕ) (s : σ) : Option Bytes :=
  get_spi_flash_binary_data spi len SECTOR_CFG_DEV_STATUS s

/-! ## Bits that are cleared -/

section Meet

variable {α β : Type} (op : α → α → α) [Std.Associative op] [Std.IdempotentOp op]

/-- Meets only get smaller. -/
theorem op_foldl (f : β → α) (l : List β) (v : α) :
    op v (l.foldl (fun v b => op v (f b)) v) = l.foldl (fun v b => op v (f b)) v := by
  have hassoc : ∀ a b c, op (op a b) c = op a (op b c) := Std.Associative.assoc
  induction l generalizing v with
  | nil => exact Std.IdempotentOp.idempotent v
  | cons b l ih =>
    have hv : op v v = v := Std.IdempotentOp.idempotent v
    rw [List.foldl_cons, ← ih, ← hassoc, ← hassoc, hv]

/-- Meets that change nothing. -/
theorem foldl_op_eq_iff [Std.Commutative op] (f : β → α) (l : List β) (v : α) :
    l.foldl (fun v b => op v (f b)) v = v ↔ ∀ b ∈ l, op v (f b) = v := by
  have hassoc : ∀ a b c, op (op a b) c = op a (op b c) := Std.Associative.assoc
  have hcomm : ∀ a b, op a b = op b a := Std.Commutative.comm
  induction l generalizing v with
  | nil => exact iff_of_true rfl fun _ hb => absurd hb List.not_mem_nil
  | cons b l ih =>
    rw [List.foldl_cons, List.forall_mem_cons]
    constructor
    · intro h
      have hle := op_foldl op f l (op v (f b))
      have hone : op v (f b) = v := by
        have hv : op v v = v := Std.IdempotentOp.idempotent v
        rw [h, hassoc, hcomm (f b) v, ← hassoc, hv] at hle
        exact hle
      rw [hone] at h
      exact ⟨hone, (ih v).mp h⟩
    · rintro ⟨hone, hrest⟩
      rw [hone]
      exact (ih v).mpr hrest

end Meet

section Cells

variable {σ : Type} {spi : SpiFlash σ} {sectors : ℕ} {cell : σ → ℕ → UInt8} (hspi : spi.Nor sectors cell)
  {w : FlashWrite} {s : σ} {a k : ℕ}

include hspi

/-- **One write**, byte by byte. -/
theorem write_cell (hw : w.Inside sectors) : (write_spi_flash_data spi w.data w.sector s).1 = 0 ∧
    (InSector w.sector a → cell (write_spi_flash_data spi w.data w.sector s).2 a = w.leaves a) ∧
    (¬ InSector w.sector a → cell (write_spi_flash_data spi w.data w.sector s).2 a = cell s a &&& w.leaves a) := by
  obtain ⟨herase, hset, hsame⟩ := hspi.erase s hw.1
  obtain ⟨hwrite, hclear, hspare⟩ := hspi.write (spi.spi_flash_erase_sector w.sector s).2 hw.2
  -- what is written on top of what is there behind the erase
  have hcell : cell (write_spi_flash_data spi w.data w.sector s).2 a =
      cell (spi.spi_flash_erase_sector w.sector s).2 a &&& w.leaves a := by
    rw [write_spi_flash_data]
    dsimp only
    rw [if_pos herase, if_pos hwrite, FlashWrite.leaves]
    by_cases hin : w.sector * secSize ≤ a ∧ a < w.sector * secSize + w.data.length
    · obtain ⟨i, rfl⟩ := Nat.exists_eq_add_of_le hin.1
      rw [if_pos hin, hclear i (by omega), Nat.add_sub_cancel_left]
    · rw [if_neg hin, hspare a (by omega)]
      exact UInt8.and_neg_one.symm
  refine ⟨?_, fun ha => ?_, fun ha => ?_⟩
  · rw [write_spi_flash_data]
    dsimp only
    rw [if_pos herase, if_pos hwrite]
  · rw [hcell, hset a ha]
    exact UInt8.neg_one_and
  · rw [hcell, hsame a ha]

/-- **Writes to other sectors** clear bits. -/
theorem run_cell_other (h : InSector k a) {writes : List FlashWrite} (hne : ∀ w ∈ writes, w.sector ≠ k)
    (hin : ∀ w ∈ writes, w.Inside sectors) :
    cell (flashRun spi writes s) a = writes.foldl (fun v w => v &&& w.leaves a) (cell s a) := by
  induction writes generalizing s with
  | nil => rfl
  | cons w writes ih =>
    have hother : ¬ InSector w.sector a := by
      have := hne w List.mem_cons_self
      unfold InSector secSize at *
      omega
    rw [flashRun, List.foldl_cons, ← flashRun, ih (fun w hw => hne w (List.mem_cons_of_mem _ hw))
      (fun w hw => hin w (List.mem_cons_of_mem _ hw)), (write_cell hspi (hin w List.mem_cons_self)).2.2 hother,
      List.foldl_cons]

/-- A read, byte by byte. -/
theorem read_eq_iff {sector : ℕ} {data : Bytes} (hfit : sector * secSize + data.length ≤ sectors * secSize) :
    get_spi_flash_binary_data spi data.length sector s = some data ↔
      ∀ i, i < data.length → cell s (sector * secSize + i) = data.getD i 0xFF := by
  rw [get_spi_flash_binary_data, hspi.read s hfit, Option.some_inj]
  constructor
  · intro h i hi
    have hget := congrArg (fun l => l.getD i (0xFF : UInt8)) h
    rw [List.getD_eq_getElem _ _ (by rw [List.length_map, List.length_range]; exact hi), List.getElem_map,
      List.getElem_range] at hget
    exact hget
  · intro h
    refine List.ext_getElem (by rw [List.length_map, List.length_range]) fun i h₁ h₂ => ?_
    rw [List.getElem_map, List.getElem_range, h i h₂, List.getD_eq_getElem _ _ h₂]

end Cells

/-- No later write clears a bit of what was written to a sector. -/
def ClearsNone (sector : ℕ) (data : Bytes) (writes : List FlashWrite) : Prop :=
  ∀ i, i < data.length → ∀ w ∈ writes, data.getD i 0xFF &&& w.leaves (sector * secSize + i) = data.getD i 0xFF

/-- Writes that end in the sector they start in spare every other sector. -/
theorem clearsNone_short {sector : ℕ} {data : Bytes} {writes : List FlashWrite} (hne : ∀ w ∈ writes, w.sector ≠ sector)
    (hshort : ∀ w ∈ writes, w.data.length ≤ secSize) (hdata : data.length ≤ secSize) :
    ClearsNone sector data writes := by
  intro i hi w hw
  have h₁ := hne w hw
  have h₂ := hshort w hw
  rw [FlashWrite.leaves, if_neg]
  · exact UInt8.and_neg_one
  · unfold secSize at *
    omega

section Runs

variable {σ : Type} {spi : SpiFlash σ} {sectors : ℕ} {cell : σ → ℕ → UInt8} (hspi : spi.Nor sectors cell)
  {sector : ℕ} {data : Bytes} {before after : List FlashWrite} {s : σ}

include hspi

/-- A byte behind the last write to its sector. -/
theorem run_cell (hin : ∀ w ∈ ⟨sector, data⟩ :: after, w.Inside sectors) (hafter : ∀ w ∈ after, w.sector ≠ sector) {i : ℕ}
    (hi : i < secSize) :
    cell (flashRun spi (before ++ ⟨sector, data⟩ :: after) s) (sector * secSize + i) =
      after.foldl (fun v w => v &&& w.leaves (sector * secSize + i)) (data.getD i 0xFF) := by
  have hat : InSector sector (sector * secSize + i) := ⟨Nat.le_add_right _ _, by omega⟩
  have hleaves : FlashWrite.leaves ⟨sector, data⟩ (sector * secSize + i) = data.getD i 0xFF := by
    rw [FlashWrite.leaves]
    dsimp only
    rw [Nat.add_sub_cancel_left]
    split_ifs with hlt
    · rfl
    · exact (List.getD_eq_default _ _ (by omega)).symm
  rw [flashRun, List.foldl_append, List.foldl_cons, ← flashRun, ← flashRun,
    run_cell_other hspi hat hafter fun w hw => hin w (List.mem_cons_of_mem _ hw),
    (write_cell hspi (hin ⟨sector, data⟩ List.mem_cons_self)).2.1 hat, hleaves]

theorem kept_cells (hin : ∀ w ∈ ⟨sector, data⟩ :: after, w.Inside sectors) (hafter : ∀ w ∈ after, w.sector ≠ sector)
    (hdata : data.length ≤ secSize) :
    (∀ i, i < data.length →
      cell (flashRun spi (before ++ ⟨sector, data⟩ :: after) s) (sector * secSize + i) = data.getD i 0xFF) ↔
      ClearsNone sector data after := by
  refine forall₂_congr fun i hi => ?_
  rw [run_cell hspi hin hafter (by omega)]
  exact foldl_op_eq_iff (fun a b : UInt8 => a &&& b) (fun w => w.leaves (sector * secSize + i)) after (data.getD i 0xFF)

/-- **What was written last** to a sector is read back iff no write behind it clears one of its bits, over any writes of
any lengths that the chip has room for. -/
theorem flash_kept_iff (hin : ∀ w ∈ ⟨sector, data⟩ :: after, w.Inside sectors)
    (hafter : ∀ w ∈ after, w.sector ≠ sector) (hdata : data.length ≤ secSize) :
    get_spi_flash_binary_data spi data.length sector (flashRun spi (before ++ ⟨sector, data⟩ :: after) s) = some data ↔
      ClearsNone sector data after :=
  (read_eq_iff hspi (hin ⟨sector, data⟩ List.mem_cons_self).2).trans (kept_cells hspi hin hafter hdata)

omit hspi in
/-- A record that a write to the sector behind it spares, and a long write from the sector before it does not. -/
theorem flash_kept_iff_sample :
    get_spi_flash_binary_data norFlash 1 510
        (flashRun norFlash ([] ++ ⟨510, [0x31]⟩ :: [⟨511, [0x00]⟩]) fun _ => 0) = some [0x31] ∧
      get_spi_flash_binary_data norFlash 1 510
        (flashRun norFlash ([] ++ ⟨510, [0x31]⟩ :: [⟨509, List.replicate 4097 0x30⟩]) fun _ => 0) ≠ some [0x31] := by
  constructor
  · exact (flash_kept_iff (norFlash_nor 1024) (by decide) (by decide) (by decide)).mpr
      (clearsNone_short (by decide) (by decide) (by decide))
  · intro h
    have hin : ∀ w ∈ (⟨510, [0x31]⟩ : FlashWrite) :: [⟨509, List.replicate 4097 0x30⟩], w.Inside 1024 := by
      refine List.forall_mem_cons.mpr ⟨by decide, List.forall_mem_cons.mpr ⟨⟨by decide, ?_⟩, by decide⟩⟩
      rw [List.length_replicate]
      decide
    have hclears := (flash_kept_iff (norFlash_nor 1024) hin (by decide) (by decide)).mp h 0 (by decide) _
      List.mem_cons_self
    rw [FlashWrite.leaves, if_pos ⟨by decide, by dsimp only; rw [List.length_replicate]; decide⟩,
      List.getD_replicate _ (by decide)] at hclears
    exact absurd hclears (by decide)

/-- **The state of the relays** is read as it was saved, while other sectors are written and no write is longer than its
sector. -/
theorem relayState_kept {relayState : Bytes} (hin : ∀ w ∈ ⟨SECTOR_CFG_DEV_STATUS, relayState⟩ :: after, w.Inside sectors)
    (hafter : ∀ w ∈ after, w.sector ≠ SECTOR_CFG_DEV_STATUS) (hshort : ∀ w ∈ after, w.data.length ≤ secSize)
    (hdata : relayState.length ≤ secSize) :
    (saveRelayState spi relayState s).1 = 0 ∧
      readRelayState spi relayState.length (flashRun spi after (saveRelayState spi relayState s).2) = some relayState := by
  have hmine := hin ⟨SECTOR_CFG_DEV_STATUS, relayState⟩ List.mem_cons_self
  have hcells : ∀ i, i < relayState.length →
      cell (flashRun spi ([] ++ ⟨SECTOR_CFG_DEV_STATUS, relayState⟩ :: after) s) (SECTOR_CFG_DEV_STATUS * secSize + i) =
        relayState.getD i 0xFF :=
    (kept_cells hspi hin hafter hdata).mpr (clearsNone_short hafter hshort hdata)
  exact ⟨(write_cell (a := 0) hspi hmine).1, (read_eq_iff hspi hmine.2).mpr hcells⟩

end Runs

/-! ## Texts -/

/-- A text up to the first `0x00` or `0xFF`. -/
def flashText (data : Bytes) : Bytes := data.takeWhile fun c => ¬ (c = 0x00 ∨ c = 0xFF)

/-- Where a text ends that has something behind it. -/
theorem findIdx_text (data rest : Bytes) {c : UInt8} (hc : c = 0x00 ∨ c = 0xFF) :
    ((data ++ c :: rest).findIdx fun c => c = 0x00 ∨ c = 0xFF) = (flashText data).length := by
  induction data with
  | nil => rw [List.nil_append, List.findIdx_cons, decide_eq_true hc]; rfl
  | cons b data ih =>
    rw [List.cons_append, List.findIdx_cons]
    by_cases hb : b = 0x00 ∨ b = 0xFF
    · have hends : flashText (b :: data) = [] := List.takeWhile_cons_of_neg (by simpa using hb.resolve_left)
      rw [decide_eq_true hb, hends]
      rfl
    · have hgoes : flashText (b :: data) = b :: flashText data := List.takeWhile_cons_of_pos (by simpa using hb)
      rw [decide_eq_false hb, hgoes, List.length_cons, ← ih]
      rfl

section Text

variable {σ : Type} {spi : SpiFlash σ} {sectors : ℕ} {cell : σ → ℕ → UInt8} (hspi : spi.Nor sectors cell)
  {sector count : ℕ} {data : Bytes} {before after : List FlashWrite} {s : σ}

include hspi in
/-- The cells of a text, and the erased one behind it. -/
theorem text_cells (hin : ∀ w ∈ ⟨sector, data⟩ :: after, w.Inside sectors) (hafter : ∀ w ∈ after, w.sector ≠ sector)
    (hdata : data.length < secSize) (hclears : ClearsNone sector (data ++ [0xFF]) after) {i : ℕ} (hi : i ≤ data.length) :
    cell (flashRun spi (before ++ ⟨sector, data⟩ :: after) s) (sector * secSize + i) = (data ++ [0xFF]).getD i 0xFF := by
  rw [run_cell hspi hin hafter (by omega)]
  have hget : data.getD i 0xFF = (data ++ [0xFF]).getD i 0xFF := by
    by_cases hlt : i < data.length
    · rw [List.getD_append _ _ _ _ hlt]
    · rw [List.getD_eq_default _ _ (by omega), List.getD_append_right _ _ _ _ (by omega),
        show i - data.length = 0 by omega]
      rfl
  rw [hget]
  exact (foldl_op_eq_iff (fun a b : UInt8 => a &&& b) (fun w => w.leaves (sector * secSize + i)) after _).mpr
    (hclears i (by rw [List.length_append, List.length_singleton]; omega))

/-- A buffer that reaches the end of the text holds it, something that ends it, and what is behind. -/
theorem ended_text {cells : ℕ → UInt8} (hcells : ∀ {i}, i ≤ data.length → cells i = (data ++ [0xFF]).getD i 0xFF)
    {n : ℕ} (hn : data.length ≤ n) :
    ∃ c rest, (c = 0x00 ∨ c = 0xFF) ∧ (List.range n).map cells ++ [0] = data ++ c :: rest := by
  have hpre : ∀ n, n ≤ data.length + 1 → (List.range n).map cells = (data ++ [0xFF]).take n := by
    intro n hn
    refine List.ext_getElem ?_ fun i h₁ h₂ => ?_
    · rw [List.length_map, List.length_range, List.length_take, List.length_append, List.length_singleton]
      omega
    · rw [List.length_map, List.length_range] at h₁
      rw [List.getElem_map, List.getElem_range, hcells (by omega), List.getElem_take, List.getD_eq_getElem]
  by_cases hlast : data.length + 1 ≤ n
  · obtain ⟨k, rfl⟩ := Nat.exists_eq_add_of_le hlast
    refine ⟨0xFF, ((List.range k).map fun i => cells (data.length + 1 + i)) ++ [0], Or.inr rfl, ?_⟩
    rw [List.range_add, List.map_append, hpre _ le_rfl, List.take_of_length_le (by simp), List.append_assoc,
      List.append_assoc, List.map_map]
    rfl
  -- the text is all that was read: the end is the byte that the code writes
  · refine ⟨0x00, [], Or.inl rfl, ?_⟩
    rw [show n = data.length by omega, hpre _ (Nat.le_succ _), List.take_left]

include hspi in
/-- **A text** shorter than a sector is read back up to its end, in a buffer that ends it, when no later write clears one
of its bits or of the byte behind it; from however many sectors of the chip it is read. -/
theorem flash_text (hin : ∀ w ∈ ⟨sector, data⟩ :: after, w.Inside sectors) (hafter : ∀ w ∈ after, w.sector ≠ sector)
    (hdata : data.length < secSize) (hclears : ClearsNone sector (data ++ [0xFF]) after) (hcount : 0 < count)
    (hfit : sector + count ≤ sectors) :
    ∃ buf, get_spi_flash_text_data spi sector count (flashRun spi (before ++ ⟨sector, data⟩ :: after) s) =
        some ((flashText data).length, buf) ∧ buf.length = secSize * count ∧
      buf.take (flashText data).length = flashText data ∧ buf.getD (flashText data).length 0xFF = 0 := by
  have hread : spi.spi_flash_read (sector * secSize) (secSize * count - 1)
      (flashRun spi (before ++ ⟨sector, data⟩ :: after) s) =
        some ((List.range (secSize * count - 1)).map fun i =>
          cell (flashRun spi (before ++ ⟨sector, data⟩ :: after) s) (sector * secSize + i)) := by
    refine hspi.read _ ?_
    have := Nat.mul_le_mul_right secSize hfit
    rw [Nat.add_mul, Nat.mul_comm count] at this
    omega
  have hsize : secSize ≤ secSize * count := Nat.le_mul_of_pos_right secSize hcount
  have hcells : ∀ {i}, i ≤ data.length →
      cell (flashRun spi (before ++ ⟨sector, data⟩ :: after) s) (sector * secSize + i) = (data ++ [0xFF]).getD i 0xFF :=
    text_cells hspi hin hafter hdata hclears
  obtain ⟨c, rest, hc, hshape⟩ := ended_text hcells (n := secSize * count - 1) (by omega)
  have hlen : (data ++ c :: rest).length = secSize * count := by
    rw [← hshape, List.length_append, List.length_map, List.length_range, List.length_singleton]
    unfold secSize at *
    omega
  have hle : (flashText data).length < (data ++ c :: rest).length := by
    have := (List.takeWhile_prefix (p := fun c : UInt8 => decide ¬ (c = 0x00 ∨ c = 0xFF)) (l := data)).length_le
    rw [List.length_append, List.length_cons]
    unfold flashText
    omega
  refine ⟨(data ++ c :: rest).set (flashText data).length 0, ?_, ?_, ?_, ?_⟩
  · rw [get_spi_flash_text_data, if_neg (Nat.ne_of_gt hcount), hread, Option.map_some]
    dsimp only
    rw [hshape, findIdx_text data rest hc]
  · rw [List.length_set, hlen]
  · rw [List.take_set_of_le le_rfl]
    have hfront : flashText data <+: data ++ c :: rest :=
      (List.takeWhile_prefix _).trans (List.prefix_append data (c :: rest))
    exact (List.prefix_iff_eq_take.mp hfront).symm
  · rw [List.getD_eq_getElem _ _ (by rw [List.length_set]; exact hle), List.getElem_set_self]

/-- A name, read from one sector, when the sector behind it has been written. -/
theorem flash_text_sample : ∃ buf, get_spi_flash_text_data norFlash 1 1
      (flashRun norFlash ([⟨1, [0x58, 0x59, 0x5A]⟩] ++ ⟨1, [0x61, 0x62]⟩ :: [⟨2, [0x00]⟩]) fun _ => 0) = some (2, buf) ∧
    buf.length = secSize * 1 ∧ buf.take 2 = [0x61, 0x62] ∧ buf.getD 2 0xFF = 0 := by
  exact flash_text (norFlash_nor 1024) (by decide) (by decide) (by decide)
    (clearsNone_short (by decide) (by decide) (by decide)) Nat.one_pos (by decide)

end Text

end Esp32Base
