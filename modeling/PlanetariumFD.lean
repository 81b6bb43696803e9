import PlanetariumFD.Foundation.Transition
import PlanetariumFD.Foundation.Floor
import PlanetariumFD.Foundation.Refinement
import PlanetariumFD.Foundation.Window
import PlanetariumFD.Foundation.Outcome
import PlanetariumFD.Foundation.NodeList
import PlanetariumFD.Foundation.Reflected
import PlanetariumFD.Foundation.Rounding
import PlanetariumFD.Foundation.QueryString
import PlanetariumFD.Detector.Arithmetic
import PlanetariumFD.Detector.Face
import PlanetariumFD.Detector.Matching
import PlanetariumFD.Detector.Threads
import PlanetariumFD.Detector.Frames
import PlanetariumFD.Detector.FaceAccounting
import PlanetariumFD.Detector.ThreadLife
import PlanetariumFD.Detector.ThreadShape
import PlanetariumFD.Detector.ShownAndSaved
import PlanetariumFD.Detector.Appearances
import PlanetariumFD.Detector.LookBack
import PlanetariumFD.Detector.Playback
import PlanetariumFD.Detector.Smoothing
import PlanetariumFD.Detector.SmoothingBounds
import PlanetariumFD.Detector.SaveJob
import PlanetariumFD.Detector.Pruner
import PlanetariumFD.Detector.System
import PlanetariumFD.Detector.HistoryShape
import PlanetariumFD.Detector.PruningPass
import PlanetariumFD.Detector.PlaybackWalk
import PlanetariumFD.Detector.StoredFaces
import PlanetariumFD.Detector.Custody
import PlanetariumFD.Detector.ExportWalk
import PlanetariumFD.Detector.Retention
import PlanetariumFD.Detector.Progress
import PlanetariumFD.Detector.Lifecycle
import PlanetariumFD.Service.Converter
import PlanetariumFD.Service.Registration
import PlanetariumFD.Detector.OutputNames
import PlanetariumFD.Service.VideoPath
import PlanetariumFD.Foundation.OrderBy
import PlanetariumFD.Service.Requests
import PlanetariumFD.Detector.ThreadChoice
import PlanetariumFD.Detector.KeptCandidate
import PlanetariumFD.Detector.SquareFaces
import PlanetariumFD.Detector.FilledFrames
import PlanetariumFD.Detector.LocalAverage
import PlanetariumFD.Detector.HistoryWalk
import PlanetariumFD.Detector.VideoExport
import PlanetariumFD.Detector.ImageExport
import PlanetariumFD.CommonLib.ConfigIni
import PlanetariumFD.Service.StartUp
import PlanetariumFD.Detector.Settings
import PlanetariumFD.Detector.AnySettings
import PlanetariumFD.Foundation.WindowsArguments
import PlanetariumFD.Service.CommandLine
import PlanetariumFD.Detector.TwoFilters
import PlanetariumFD.Detector.ExportTurns
import PlanetariumFD.Detector.RequiredFrames
import PlanetariumFD.Detector.IdealTracker
import PlanetariumFD.Detector.SeparatedScenes
import PlanetariumFD.Detector.JobTurns
import PlanetariumFD.Detector.ThreadsAlone
import PlanetariumFD.Detector.JobBound
import PlanetariumFD.Foundation.Ledger
import PlanetariumFD.Service.WebSystem
import PlanetariumFD.Service.Conversions
import PlanetariumFD.Service.StampTurns
import PlanetariumFD.Detector.FineSteps
import PlanetariumFD.Detector.Flushed
import PlanetariumFD.Detector.FineFaults
import PlanetariumFD.Detector.EndOfInput
import PlanetariumFD.Detector.JobNames
import PlanetariumFD.Detector.FrameRate
import PlanetariumFD.Detector.PlaybackOutput
import PlanetariumFD.Detector.JobsAlone
import PlanetariumFD.Detector.AtRest
import PlanetariumFD.Detector.Crowd
import PlanetariumFD.Service.EmptyQueue
