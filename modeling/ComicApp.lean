import ComicApp.EventMachine
import ComicApp.RequestBatch
import ComicApp.Objects
import ComicApp.DownloadCommic
import ComicApp.DownloadSession
import ComicApp.CallSteps
import ComicApp.RemoteStorage
import ComicApp.DownloadSize
import ComicApp.StoredChapters
import ComicApp.DownloadRecords
import ComicApp.DownloadFinish
import ComicApp.DownloadComplete
import ComicApp.DownloadCounter
import ComicApp.DownloadInterleaving
import ComicApp.DownloadOrder
import ComicApp.OfflineReading
import ComicApp.ChapterCount
import ComicApp.CommentSession
import ComicApp.Purge
import ComicApp.AccountSession
import ComicApp.AccountSteps
import ComicApp.AccountSwitch
import ComicApp.StoredAccount
import ComicApp.AvatarUpload
import ComicApp.ComicScreens
import ComicApp.CommentLists
import ComicApp.AccountPage
import ComicApp.CloudSession
import ComicApp.ShelfObjects
import ComicApp.ShelfRows
import ComicApp.ShelfRequests
import ComicApp.LikeAgreement
import ComicApp.HistoryAgreement
import ComicApp.PageLoad
import ComicApp.ReaderPages
import ComicApp.ChapterNavigation
import ComicApp.SavedAccount
import ComicApp.DownloadProgress
import ComicApp.ComicGrid
import ComicApp.CommentCells
import ComicApp.PasswordFields
import ComicApp.PasswordChange
import ComicApp.ReviewRows
import ComicApp.ChapterFolders
import ComicApp.BinaryDigits
import ComicApp.KeyboardSpacer
import ComicApp.PaddedNumeral
import ComicApp.ShelfRefresh
import ComicApp.CatalogueDocuments
import ComicApp.CatalogueSession
import ComicApp.OfflineCopy
import ComicApp.AccountForms
import ComicApp.AccountData
import ComicApp.AccountTab
import ComicApp.FilledAccounts
import ComicApp.AccountStops
import ComicApp.Replay
import ComicApp.Revisions
import ComicApp.Mutations
import ComicApp.MutationEffects
import ComicApp.DocumentCells
import ComicApp.LocalStore
import ComicApp.MutationQueue
import ComicApp.ClientSteps
import ComicApp.DocumentSession
import ComicApp.DocumentSteps
import ComicApp.SettledDocument
import ComicApp.OwnWrites
import ComicApp.NewestSnapshot
import ComicApp.WritesDrain
import ComicApp.ProfileWrites
import ComicApp.OrderedCodes
import ComicApp.BigEndian
import ComicApp.SpecialBytes
import ComicApp.OrderedStrings
import ComicApp.SignedNumbers
import ComicApp.LevelDbKeys
