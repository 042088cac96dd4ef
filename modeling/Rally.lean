import Rally.RateLimit
import Rally.Server
import Rally.Wire.Bulletin
import Rally.Wire.Notice
import Rally.Proofs.Match.Timing
import Rally.Proofs.Match.Deadlines
import Rally.Proofs.Arena.Live
import Rally.Proofs.Arena.Timeline
import Rally.Proofs.Match.Ball
import Rally.Proofs.Stepper.Court
import Rally.Proofs.Stepper.Once
import Rally.Proofs.InputLog.Journal
import Rally.Proofs.Match.Following
import Rally.Proofs.Room.Happenings
import Rally.Proofs.Room.Sockets
import Rally.Proofs.Match.Course
import Rally.Proofs.Match.Windows
import Rally.Proofs.Arena.Stops
import Rally.Proofs.Match.Scoring
import Rally.Proofs.Arena.Frame
import Rally.Proofs.Stepper.Steering
import Rally.Proofs.Match.Heeding
import Rally.Proofs.Hall.Dealings
import Rally.Proofs.Match.Limit
import Rally.Proofs.Match.Staleness
import Rally.Proofs.Arena.Serving
import Rally.Proofs.Match.Serving
import Rally.Proofs.Hall.Namesakes
import Rally.Proofs.Arena.Halting
import Rally.Proofs.Arena.Observers
import Rally.Proofs.Arena.Bounces
import Rally.Proofs.Arena.Cuts
import Rally.Proofs.Match.Absence
import Rally.Proofs.Arena.Account
import Rally.Proofs.Scalar.Overflow
import Rally.Proofs.Arena.Spending
import Rally.Proofs.Match.Presence
import Rally.Proofs.Match.Forgiveness
import Rally.Proofs.Match.Pauses
import Rally.Proofs.Match.Deciding
import Rally.Proofs.Match.Unbounded
import Rally.Proofs.InputLog.Admission
import Rally.Proofs.Arena.Pace
import Rally.Proofs.Arena.Travel
import Rally.Proofs.Match.Safety
import Rally.Proofs.Settings
import Rally.Proofs.Plane.Outside
import Rally.Proofs.Session.Hearing
import Rally.Proofs.Wire.Request
import Rally.Proofs.Plane.Mirrors
import Rally.Proofs.Arena.Triggers
