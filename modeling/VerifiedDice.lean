import VerifiedDice.ImageAuth
import VerifiedDice.FirmwareAuth
import VerifiedDice.SlotBuild
import VerifiedDice.FirmwareBounds
import VerifiedDice.HWAbstraction
import VerifiedDice.Launch
import VerifiedDice.CircularLog
import VerifiedDice.Lib.Cut
import VerifiedDice.World
import VerifiedDice.Logger
import VerifiedDice.Flash
import VerifiedDice.Rng
import VerifiedDice.Secret
import VerifiedDice.SecretHistory
import VerifiedDice.Protections
import VerifiedDice.DiceMain
import VerifiedDice.SecretLogs
import VerifiedDice.DiceLogs
import VerifiedDice.L0Main
import VerifiedDice.RngSizes
import VerifiedDice.LogBounds
import VerifiedDice.CryptoFiles
import VerifiedDice.FlashErase
import VerifiedDice.HostFlash
import VerifiedDice.HexDump
import VerifiedDice.L0Measure
import VerifiedDice.Lib.Thumb
import VerifiedDice.ImageLaunch
import VerifiedDice.Lib.DoubleCollect
import VerifiedDice.SystemTime
import VerifiedDice.Lib.Assembly
import VerifiedDice.Lib.ThumbCarry
import VerifiedDice.ImageStart
import VerifiedDice.SwWatchdog
import VerifiedDice.L0Boot
import VerifiedDice.L1Image
import VerifiedDice.BootChain
import VerifiedDice.L1Session
import VerifiedDice.CorruptImage
import VerifiedDice.Lib.Lockstep
import VerifiedDice.Hidden
import VerifiedDice.ConsoleSecrets
import VerifiedDice.Lib.BitPolynomial
import VerifiedDice.Xoroshiro
import VerifiedDice.Lib.LineEnds
import VerifiedDice.Syscalls
import VerifiedDice.Terminal
import VerifiedDice.OptionBytes
import VerifiedDice.Identity
import VerifiedDice.L0Handover
