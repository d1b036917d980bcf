import GuardianWallet.Basic
import GuardianWallet.Simulate
import GuardianWallet.SimulateInvariant
import GuardianWallet.SimulateProperties
import GuardianWallet.SimulateChannels
import GuardianWallet.SimulateQuiescence
import GuardianWallet.SimulateTermination
import GuardianWallet.SimulateErrors
import GuardianWallet.Sign
import GuardianWallet.SignProperties
import GuardianWallet.SignStore
import GuardianWallet.NativeSign
import GuardianWallet.NativeSignLines
import GuardianWallet.SignCompletion
import GuardianWallet.SignFailure
import GuardianWallet.SessionId
import GuardianWallet.Dkg
import GuardianWallet.DkgProperties
import GuardianWallet.DkgSafety
import GuardianWallet.DkgRefinement
