import IdentityVault.File.World
import IdentityVault.Main
import IdentityVault.Proofs.Cipher.Sealing
import IdentityVault.Proofs.CommandLine.CipherKey
import IdentityVault.Proofs.CommandLine.Passwords
import IdentityVault.Proofs.Directory.Course
import IdentityVault.Proofs.Directory.Login
import IdentityVault.Proofs.Directory.PasswordChange
import IdentityVault.Proofs.Directory.Refinement
import IdentityVault.Proofs.Directory.Registration
import IdentityVault.Proofs.Directory.Roster
import IdentityVault.Proofs.Directory.Traffic
import IdentityVault.Proofs.File.Below
import IdentityVault.Proofs.File.Replace
import IdentityVault.Proofs.Gateway.Agreement
import IdentityVault.Proofs.Gateway.Atomicity
import IdentityVault.Proofs.Gateway.Chain
import IdentityVault.Proofs.Gateway.Deadline
import IdentityVault.Proofs.Gateway.Permanence
import IdentityVault.Proofs.Gateway.Undisturbed
import IdentityVault.Proofs.Gateway.Unseen
import IdentityVault.Proofs.Gateway.Within
import IdentityVault.Proofs.Gateway.Workplace
import IdentityVault.Proofs.Gateway.Works
import IdentityVault.Proofs.Json.RoundTrip
import IdentityVault.Proofs.Json.Token
import IdentityVault.Proofs.Object.Confinement
import IdentityVault.Proofs.Object.Frame
import IdentityVault.Proofs.Object.History
import IdentityVault.Proofs.Object.Index
import IdentityVault.Proofs.Object.Keys
import IdentityVault.Proofs.Object.Reopening
import IdentityVault.Proofs.Rsa.Bare
import IdentityVault.Proofs.Rsa.KeyFile
import IdentityVault.Proofs.Rsa.KeyFormat
import IdentityVault.Proofs.Scope.Amid
import IdentityVault.Proofs.Scope.Backend
import IdentityVault.Proofs.Scope.Body
import IdentityVault.Proofs.Scope.Life
import IdentityVault.Proofs.Scope.Narrowing
import IdentityVault.Proofs.Scope.Orderly
import IdentityVault.Proofs.Scope.Ownership
import IdentityVault.Proofs.Scope.Settle
import IdentityVault.Proofs.Scope.Stage
import IdentityVault.Proofs.Scope.Within
import IdentityVault.Proofs.Session.Connections
import IdentityVault.Proofs.Session.Moves
import IdentityVault.Proofs.Settings.File
import IdentityVault.Proofs.Settings.Overlay
import IdentityVault.Proofs.Store.Blank
import IdentityVault.Proofs.Store.Commute
import IdentityVault.Proofs.Store.Conflict
import IdentityVault.Proofs.Store.Connections
import IdentityVault.Proofs.Store.Integrity
import IdentityVault.Proofs.Store.Isolation
import IdentityVault.Proofs.Store.Listing
import IdentityVault.Proofs.Store.Retention
import IdentityVault.Proofs.Store.Serial
import IdentityVault.Proofs.Time.Calendar
import IdentityVault.Proofs.Time.Rfc3339
import IdentityVault.Proofs.World.Crashes
import IdentityVault.Session.Perform
import IdentityVault.World.InMemory
