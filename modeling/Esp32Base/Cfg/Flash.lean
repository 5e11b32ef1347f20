import Mathlib.Algebra.Order.Ring.Int
import Mathlib.Data.List.GetD
import Esp32Base.Lib.Buf

/-!
# Cfg.Flash — sectors of the SPI flash (spi_data.c)

The driver is a parameter: what a state of the chip is and what its operations answer is left open.
`SpiFlash.Succeeds` is the case in which none of them fails.

* `write_read`: a sector that was written reads back.
-/

namespace Esp32Base

open Lib

/-- `SPI_FLASH_SEC_SIZE`. -/
def secSize : ℕ := 4096

/-- The driver: `true` and `some _` stand for `ESP_OK`. -/
structure SpiFlash (σ : Type) where
  spi_flash_erase_sector : ℕ → σ → Bool × σ
  spi_flash_write : ℕ → Bytes → σ → Bool × σ
  spi_flash_read : ℕ → ℕ → σ → Option Bytes

section Driver

variable {σ : Type} (spi : SpiFlash σ)

/-- The return value and the chip. -/
def write_spi_flash_data (data : Bytes) (sector : ℕ) (s : σ) : ℕ × σ :=
  let erased := spi.spi_flash_erase_sector sector s
  if erased.1 then
    let written := spi.spi_flash_write (sector * secSize) data erased.2
    if written.1 then (0, written.2) else (1, written.2)
  else (1, erased.2)

/-- The block read, `none` for `NULL`. -/
def get_spi_flash_binary_data (read_len sector : ℕ) (s : σ) : Option Bytes :=
  spi.spi_flash_read (sector * secSize) read_len s

/-- Every operation answers `ESP_OK`, and what is written behind an erase is what is read. -/
structure SpiFlash.Succeeds : Prop where
  erase : ∀ sector s, (spi.spi_flash_erase_sector sector s).1 = true
  write : ∀ addr data s, (spi.spi_flash_write addr data s).1 = true
  read_back : ∀ sector (data : Bytes) s, data.length ≤ secSize →
    spi.spi_flash_read (sector * secSize) data.length
      (spi.spi_flash_write (sector * secSize) data (spi.spi_flash_erase_sector sector s).2).2 = some data

/-- A successful erase leaves `0xFF` in the sector; an erase or a write that fails changes nothing. -/
structure SpiFlash.FailsClean : Prop where
  erased : ∀ {sector s n}, (spi.spi_flash_erase_sector sector s).1 = true → n ≤ secSize →
    spi.spi_flash_read (sector * secSize) n (spi.spi_flash_erase_sector sector s).2 =
      some (List.replicate n 0xFF)
  erase_failed : ∀ {sector s}, (spi.spi_flash_erase_sector sector s).1 = false → ∀ addr n,
    spi.spi_flash_read addr n (spi.spi_flash_erase_sector sector s).2 = spi.spi_flash_read addr n s
  write_failed : ∀ {at_ data s}, (spi.spi_flash_write at_ data s).1 = false → ∀ addr n,
    spi.spi_flash_read addr n (spi.spi_flash_write at_ data s).2 = spi.spi_flash_read addr n s

variable {spi}

/-- After a write that reports failure the sector reads as before when the erase had failed, and as
erased when it had not. -/
theorem read_write_failed (h : spi.FailsClean) {data : Bytes} {sector : ℕ} {s : σ}
    (hw : (write_spi_flash_data spi data sector s).1 = 1) {n : ℕ} (hn : n ≤ secSize) :
    get_spi_flash_binary_data spi n sector (write_spi_flash_data spi data sector s).2 =
      if (spi.spi_flash_erase_sector sector s).1 then some (List.replicate n 0xFF)
      else get_spi_flash_binary_data spi n sector s := by
  unfold write_spi_flash_data at hw ⊢
  simp only at hw ⊢
  by_cases he : (spi.spi_flash_erase_sector sector s).1 = true
  · rw [if_pos he] at hw ⊢
    rw [if_pos he]
    split_ifs at hw ⊢ with hwr
    exact (h.write_failed (Bool.eq_false_iff.mpr hwr) _ _).trans (h.erased he hn)
  · rw [if_neg he, if_neg he]
    exact h.erase_failed (Bool.eq_false_iff.mpr he) _ _

theorem write_read (h : spi.Succeeds) {data : Bytes} (hd : data.length ≤ secSize) (sector : ℕ) (s : σ) :
    (write_spi_flash_data spi data sector s).1 = 0 ∧
      get_spi_flash_binary_data spi data.length sector (write_spi_flash_data spi data sector s).2 = some data := by
  unfold write_spi_flash_data
  simp only [h.erase, h.write, if_true, true_and]
  exact h.read_back sector data s hd

end Driver

/-! ## A chip -/

/-- Erasing sets the sector to `0xFF`; writing can only clear bits. -/
def norFlash : SpiFlash (ℕ → UInt8) where
  spi_flash_erase_sector sector s :=
    (true, fun a => if sector * secSize ≤ a ∧ a < sector * secSize + secSize then 0xFF else s a)
  spi_flash_write addr data s :=
    (true, fun a => if addr ≤ a ∧ a < addr + data.length then s a &&& data.getD (a - addr) 0xFF else s a)
  spi_flash_read addr n s := some ((List.range n).map fun i => s (addr + i))

theorem norFlash_succeeds : norFlash.Succeeds where
  erase _ _ := rfl
  write _ _ _ := rfl
  read_back sector data s hd := by
    show some _ = some data
    congr 1
    refine List.ext_getElem (by simp) fun i h1 h2 => ?_
    rw [List.getElem_map, List.getElem_range]
    show (if _ then (if _ then (0xFF : UInt8) else _) &&& _ else _) = _
    rw [if_pos ⟨by omega, by omega⟩, if_pos ⟨by omega, by omega⟩, Nat.add_sub_cancel_left,
      List.getD_eq_getElem data _ h2]
    exact UInt8.neg_one_and

/-- The same chip with a driver whose erases or writes do nothing and say so. -/
def faultyFlash (eraseOk writeOk : Bool) : SpiFlash (ℕ → UInt8) where
  spi_flash_erase_sector sector s := if eraseOk then norFlash.spi_flash_erase_sector sector s else (false, s)
  spi_flash_write addr data s := if writeOk then norFlash.spi_flash_write addr data s else (false, s)
  spi_flash_read := norFlash.spi_flash_read

theorem faultyFlash_failsClean (eraseOk writeOk : Bool) : (faultyFlash eraseOk writeOk).FailsClean where
  erased {sector s n} h hn := by
    cases eraseOk with
    | false => cases h
    | true =>
      show some _ = some _
      congr 1
      refine List.ext_getElem (by simp) fun i h1 h2 => ?_
      rw [List.length_replicate] at h2
      rw [List.getElem_map, List.getElem_range, List.getElem_replicate]
      exact if_pos ⟨by omega, by omega⟩
  erase_failed h _ _ := by
    cases eraseOk with
    | false => rfl
    | true => cases h
  write_failed h _ _ := by
    cases writeOk with
    | false => rfl
    | true => cases h

end Esp32Base
