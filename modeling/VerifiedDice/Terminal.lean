import VerifiedDice.BootChain
import VerifiedDice.L1Session
import VerifiedDice.Syscalls

/-!
# From power-on to the terminal

DICE starts L0, L0 starts L1, somebody uses the menu of L1 and asks for the certificates, the C
library cuts the text into calls of `_write`, and each byte goes over the serial line. At the end
of all this are the certificates that L0 made from what DICE handed over.
-/
namespace VerifiedDice.BootChain

open ByteMemory ImageStart Syscalls L1Image
open Startup (ImageSymbols)

/-- **The certificates reach the terminal.** Let DICE, started on any device, come to launch L0,
and L0, started behind it, come to launch L1. In any round of the menu, after any keys and tests,
let `PrintArtifacts` run through. As soon as the C library has passed on what was printed, in
whatever pieces, and every transmission has succeeded, the screen shows, behind the two lines of
the log, the hexadecimal digits of the alias key certificate and of the request of DeviceID, and
decoded these are what L0 made of the version and the measurement of this DICE, of the secret that
it derived and of the digest of the L1 in flash, if that is where it ends. -/
theorem certificates_reach_terminal {cfgDice cfgL0 cfgL1 : BuildConfig} {s : SecretCopies}
    {locals : SecretLocals} {d : DiceCore} {C : Crypto} {E : L0Engine} {L : ImageSymbols}
    (hspares : ∀ x, InL0Head x → d.Spares x) {w w0 w1 : World} (hnone : w.launched = none)
    (hdice : (VerifiedDice.main cfgDice s locals d w).2.launched ≠ none)
    (hexit : ExitsSecureArea (VerifiedDice.main cfgDice s locals d w).2 w0)
    (hl0 : (L0Image.main cfgL0 C E w0).2.launched ≠ none)
    (hlaunch : LaunchesImage L (L0Image.main cfgL0 C E w0).2 w1)
    {buffer : CorruptBuffer} {keys : Nat → Option Byte} {b b' : Board}
    (hmenu : AtMenu cfgL1 buffer ⟨w1, keys, []⟩ b)
    (hprint : printArtifacts cfgL1 b = (some (), b'))
    {calls : List WriteCall} (hcalls : b'.console <+: written calls) (hsent : AllSent calls) :
    ∃ fwid crt csr,
      b.console ++ crtLine cfgL1 b.world ++ crt ++ csrLine cfgL1 b.world ++ csr <+:
        screen (wire calls) ∧
      decodeHex crt = some (l1ParamsOf cfgL0 E
        { versionDICE := cfgDice.versionDiceFull
          hwMeasurement := hwMeasurementText.take hwMeasurementLen
          cdi := (readL0Params w0.mem).cdi } fwid).aliasKeyCert ∧
      decodeHex csr = some (l1ParamsOf cfgL0 E
        { versionDICE := cfgDice.versionDiceFull
          hwMeasurement := hwMeasurementText.take hwMeasurementLen
          cdi := (readL0Params w0.mem).cdi } fwid).deviceIDCsr ∧
      (MeasuredInFlash w0.mem → fwid = C.sha256 (bytesAt w0.mem (Launch.measuredL1 w0.mem).start
        (Launch.measuredL1 w0.mem).size.toNat)) := by
  obtain ⟨⟨fwid, hover, hfwid⟩, -⟩ := chain_handedOver hspares hnone hdice hexit hl0 hlaunch
  obtain ⟨-, hprinted⟩ := printArtifacts_run cfgL1 (hmenu.handedOver hover)
  have hconsole := hprinted b' hprint
  refine ⟨fwid, _, _, ?_, decodeHex_flatMap _, decodeHex_flatMap _, hfwid⟩
  rw [screen_wire hsent]
  rw [hconsole] at hcalls
  exact hcalls

/-- L1 of the chain, on a Nucleo board. -/
def nucleoL1 : World := { chainL1 with packageType := packageTypeTqfp144 }

theorem chainL0End_launchesNucleo : LaunchesImage sampleSymbols chainL0End nucleoL1 :=
  ⟨rfl, rfl⟩

/-- One call for each byte of the text. -/
def byteCalls (t : Text) : List WriteCall :=
  t.map fun c => { mem := fun _ => c, ptr := 0, len := 1, status := fun _ => .ok }

theorem written_byteCalls (t : Text) : written (byteCalls t) = t := by
  induction t with
  | nil => rfl
  | cons c t ih => exact congrArg (c :: ·) ih

theorem byteCalls_sent (t : Text) : AllSent (byteCalls t) := by
  intro c hc i _
  obtain ⟨_, _, rfl⟩ := List.mem_map.mp hc
  rfl

def nucleoBoard : Board := ⟨nucleoL1, fun _ => none, []⟩

theorem nucleoBoard_starts :
    (onBoard (imageStart plainBuild L1Image.mainFile 22) nucleoBoard).1 = some 0 ∧
    806 + 58 ≤ (onBoard (imageStart plainBuild L1Image.mainFile 22) nucleoBoard).2.world.power := by
  decide +kernel

theorem chain_reaches_terminal : ∃ b b' crt csr,
    AtMenu plainBuild sampleBuffer nucleoBoard b ∧ printArtifacts plainBuild b = (some (), b') ∧
    b.console ++ crtLine plainBuild b.world ++ crt ++ csrLine plainBuild b.world ++ csr <+:
      screen (wire (byteCalls b'.console)) ∧
    decodeHex crt = some (l1ParamsOf plainBuild sampleEngine
      { versionDICE := plainBuild.versionDiceFull
        hwMeasurement := hwMeasurementText.take hwMeasurementLen
        cdi := (readL0Params chainL0.mem).cdi }
      (SlotBuild.tagSigner.sha256 (bytesAt chainL0.mem 0x08060400 16))).aliasKeyCert ∧
    decodeHex csr = some (l1ParamsOf plainBuild sampleEngine
      { versionDICE := plainBuild.versionDiceFull
        hwMeasurement := hwMeasurementText.take hwMeasurementLen
        cdi := (readL0Params chainL0.mem).cdi }
      (SlotBuild.tagSigner.sha256 (bytesAt chainL0.mem 0x08060400 16))).deviceIDCsr := by
  have hspares : ∀ x, readingCore.Spares x := readingCore_spares
  obtain ⟨hstarts, hleft⟩ := nucleoBoard_starts
  obtain ⟨b, hmenu, hpower⟩ := @menu_reached _ sampleBuffer _ _ hstarts rfl _ hleft
  obtain ⟨⟨_, hover, _⟩, _⟩ := @chain_handedOver plainBuild plainBuild adjacentCopies
    adjacentLocals readingCore SlotBuild.tagSigner.toCrypto sampleEngine sampleSymbols
    (fun x _ => hspares x) headedDevice chainL0 nucleoL1 rfl headedBoot_launched
    headedBoot_exits chainL0End_launched chainL0End_launchesNucleo
  have hlengths : (crtLength plainBuild sampleEngine).toNat = 500 ∧
      (csrLength sampleEngine).toNat = 300 := ⟨rfl, rfl⟩
  obtain ⟨b', hprint⟩ := (printArtifacts_run plainBuild (hmenu.handedOver hover)).1 (by omega)
  have hcalls : b'.console <+: written (byteCalls b'.console) :=
    (written_byteCalls b'.console).symm ▸ List.prefix_refl b'.console
  obtain ⟨fwid, crt, csr, hscreen, hcrt, hcsr, hfwid⟩ :=
    @certificates_reach_terminal plainBuild plainBuild plainBuild adjacentCopies adjacentLocals
      readingCore SlotBuild.tagSigner.toCrypto sampleEngine sampleSymbols
      (fun x _ => hspares x) headedDevice chainL0 nucleoL1 rfl headedBoot_launched
      headedBoot_exits chainL0End_launched chainL0End_launchesNucleo sampleBuffer (fun _ => none)
      b b' hmenu hprint (byteCalls b'.console) hcalls (byteCalls_sent _)
  have hdigest := hfwid (measuredInFlash_of_size (congrArg Launch.ByteRange.size chainL0_measured))
  rw [chainL0_measured] at hdigest
  rw [hdigest] at hcrt hcsr
  exact ⟨b, b', crt, csr, hmenu, hprint, hscreen, hcrt, hcsr⟩

end VerifiedDice.BootChain
