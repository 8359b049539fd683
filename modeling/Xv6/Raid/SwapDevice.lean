import Xv6.Raid.ModeChange
import Xv6.VM.State

/-!
# The RAID layer as a swap device

The memory system is modelled on any swap device that returns the page last written to a slot
(`SwapDev.Lawful`). With healthy disks and in one mode, `raid_write_page` and `raid_read_page` are
such a device. Mode changes and failed disks are the subject of `ModeChange` and `SingleFailure`.
-/

namespace Xv6.Raid

open Function

open VM (SwapDev)

/-- `raid_write_page` and `raid_read_page` in a mode, with healthy disks. Only the slots below
`MAX_SWAP_PAGES` have pages of their own. -/
def raidDev (mode : RaidMode) : SwapDev SwapDisk where
  write _ slot pg s := .ok (raidWritePage slot pg mode (-1) s)
  read _ slot pg s := .ok (raidReadPage slot pg mode (-1) s)
  stored s slot := if slot < MAX_SWAP_PAGES then (raidReadPage slot 0 mode (-1) s).1 else 0

variable (mode : RaidMode)

lemma raidReadPage_healthy_block (slot : ℕ) (pg : Page) (s : SwapDisk)
    (i : Fin SWAP_BLOCKS_PER_PAGE) : (raidReadPage slot pg mode (-1) s).1.block i =
      stripe s (offsetOf mode (slot * 4 + i)) (homeDisk mode (slot * 4 + i)) := by
  rw [raidReadPage_block, readBlock_healthy]

/-- What is read from a slot after a page was written to a slot. -/
theorem raidReadPage_raidWritePage {slot j : ℕ} (hslot : slot < MAX_SWAP_PAGES)
    (hj : j < MAX_SWAP_PAGES) (pg old : Page) (s : SwapDisk) :
    (raidReadPage j old mode (-1) (raidWritePage slot pg mode (-1) s)).1 =
      if j = slot then pg else (raidReadPage j old mode (-1) s).1 := by
  apply Page.ext_block
  intro i
  -- the write changes the homes of the logical blocks of its slot, and no other ones
  rw [raidReadPage_healthy_block, stripe_raidWritePage_home mode hslot pg s
    (offsetOf_lt_of_slot mode hj i), writeLogical_slot]
  split_ifs
  · rfl
  · rw [raidReadPage_healthy_block]

/-- **The RAID layer keeps the pages that are swapped out.** In every mode, with healthy disks, a
slot returns the page last written to it, and other slots are left alone. -/
theorem raidDev_lawful : (raidDev mode).Lawful where
  write_stored {noff slot pg s s'} hslot h := by
    obtain rfl : raidWritePage slot pg mode (-1) s = s' := Except.ok.inj h
    funext j
    rw [update_apply]
    by_cases hj : j < MAX_SWAP_PAGES
    · simp only [raidDev, if_pos hj, raidReadPage_raidWritePage mode hslot hj]
    · have hne : j ≠ slot := by
        rintro rfl
        exact hj hslot
      simp only [raidDev, if_neg hj, if_neg hne]
  read_eq {noff slot old s pg s'} hslot h := by
    have hread : raidReadPage slot old mode (-1) s = (pg, s') := Except.ok.inj h
    obtain rfl : (raidReadPage slot old mode (-1) s).1 = pg := congrArg Prod.fst hread
    obtain rfl : (raidReadPage slot old mode (-1) s).2 = s' := congrArg Prod.snd hread
    constructor
    · -- the four blocks that are read make up the page
      apply Page.ext_block
      intro i
      simp only [raidDev, if_pos hslot, raidReadPage_healthy_block]
    · -- reading changes no block
      funext j
      have hblocks := raidReadPage_blocks slot old mode (-1) s
      simp only [raidDev]
      split_ifs
      · apply Page.ext_block
        intro i
        rw [raidReadPage_healthy_block, raidReadPage_healthy_block, stripe, stripe, hblocks]
      · rfl

end Xv6.Raid
