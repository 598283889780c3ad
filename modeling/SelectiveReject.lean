import SelectiveReject.Main
import SelectiveReject.Scenario.Trial
import SelectiveReject.Scenario.Visit
import SelectiveReject.Scenario.Exchange
import SelectiveReject.Scenario.Socket
import SelectiveReject.Proofs.Faults
import SelectiveReject.Proofs.Pieces
import SelectiveReject.Proofs.Window
import SelectiveReject.Proofs.Buffer
import SelectiveReject.Proofs.Receiving
import SelectiveReject.Proofs.Sending
import SelectiveReject.Scenario.Network
import SelectiveReject.Proofs.Truth
import SelectiveReject.Proofs.Safety
import SelectiveReject.Proofs.Synchrony
import SelectiveReject.Proofs.Faultless
import SelectiveReject.Proofs.Talk
import SelectiveReject.Proofs.Progress
import SelectiveReject.Proofs.Persistence
import SelectiveReject.Proofs.Script
import SelectiveReject.Proofs.RoundTrip
import SelectiveReject.Proofs.Registry
import SelectiveReject.Proofs.Incidents
import SelectiveReject.Proofs.Account
import SelectiveReject.Proofs.UploadEndings
import SelectiveReject.Proofs.Intake
import SelectiveReject.Proofs.DownloadEndings
import SelectiveReject.Proofs.Settling
import SelectiveReject.Proofs.Sites
import SelectiveReject.Proofs.Isolation
import SelectiveReject.Proofs.Codec
import SelectiveReject.Proofs.Agreement
import SelectiveReject.Proofs.Silence
import SelectiveReject.Proofs.Shifts
import SelectiveReject.Proofs.Patience
import SelectiveReject.Proofs.Hearing
import SelectiveReject.Proofs.Echoes
import SelectiveReject.Proofs.Noise
import SelectiveReject.Proofs.Wakefulness
import SelectiveReject.Proofs.Reckoning
import SelectiveReject.Proofs.Calls
import SelectiveReject.Proofs.Outbox
import SelectiveReject.Proofs.Unanswered
import SelectiveReject.Proofs.Cumulative
import SelectiveReject.Proofs.Storage
import SelectiveReject.Proofs.Damage
import SelectiveReject.Proofs.Breakage
import SelectiveReject.Proofs.Feedback
import SelectiveReject.Proofs.Words
import SelectiveReject.Proofs.Oversize
import SelectiveReject.Proofs.Forgery
import SelectiveReject.Proofs.Arguments
