import HmclPe.Boat.CatchUp
import HmclPe.Java.TimSort
import HmclPe.Game.Resolution
import HmclPe.Game.StringArgument
import HmclPe.Game.Descriptor
import HmclPe.Download.PatchHistory
import HmclPe.Download.LibraryLayers
import HmclPe.Download.Accumulation
import HmclPe.Download.LibraryLaw
import HmclPe.Download.LibraryAnalyzer
import HmclPe.Launch.ClassPath
import HmclPe.Launch.LaunchVersion
import HmclPe.Launch.Inheritance
import HmclPe.Launch.LaunchArguments
import HmclPe.Launch.Termination
import HmclPe.Launch.MCOptionUtils
import HmclPe.Launch.CheckLibTask
import HmclPe.Launch.McArgs
import HmclPe.Versioning.TotalOrder
import HmclPe.Versioning.Places
import HmclPe.Versioning.Normalization
import HmclPe.Tasks.WhenComplete
import HmclPe.Tasks.Structured
import HmclPe.Mods.LocalModFile
import HmclPe.Control.TouchBalance
import HmclPe.Control.LayoutRefresh
import HmclPe.Io.CacheSoundness
import HmclPe.Io.NetworkUtils
import HmclPe.Io.ZipTools
import HmclPe.Download.NoLostDownload
import HmclPe.Download.Accounting
import HmclPe.Control.BaseButton
import HmclPe.Control.ButtonKeys
import HmclPe.Control.StuckKeys
import HmclPe.Auth.Texture
import HmclPe.Skin.NormalizedSkin
import HmclPe.Mods.CategoryForest
import HmclPe.Java.CodeUnits
import HmclPe.Lib.KeyedSets
import HmclPe.Mods.ModList
import HmclPe.Mods.Rollback
import HmclPe.Mods.Datapack
import HmclPe.Mods.LongestCommonSubsequence
import HmclPe.Mods.ModTranslations
import HmclPe.Game.World
import HmclPe.Control.RockerDisplay
import HmclPe.Download.CancelledFiles
import HmclPe.Lib.Interactions
import HmclPe.Download.InstallTask
import HmclPe.Download.InstallReports
import HmclPe.Setting.SettingUtils
import HmclPe.Java.Search
import HmclPe.Control.TouchCharInput
import HmclPe.Control.VisibilityControl
import HmclPe.Mods.DatapackInstall
import HmclPe.Io.ZipArchive
import HmclPe.Io.CopyFaithful
import HmclPe.Io.Deletion
import HmclPe.Control.ViewOwner
import HmclPe.Mods.MurmurHash2
import HmclPe.Multiplayer.LocalServerBroadcaster
import HmclPe.Launch.AccountPatch
import HmclPe.Io.HttpServer
import HmclPe.N2n.Tampering
import HmclPe.N2n.Overruns
